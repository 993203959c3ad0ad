import Fluvio.Lib.TopK

/-!
The leader's view of its followers (`fluvio-storage/src/lib.rs`: `OffsetInfo`;
`fluvio-spu/src/replication/leader/replica_state.rs`: `compute_hw`).

Each follower is known by the `OffsetInfo` (high watermark and log end offset) it
last reported. `compute_hw` decides how far the leader's high watermark may rise:
with `k = min(min_replica - 1, followers)` it takes the followers' log end offsets
above the leader's high watermark and, through a heap of `k` of them, their `k`-th
largest (`TopK.heapSelect`); with `k = 0` it takes their maximum.

* `computeHw_spec` — what `compute_hw` returns: the largest offset above the leader's
  high watermark that `k` followers have reached, or nothing when no offset is.
-/

namespace Fluvio.Replication

open TopK

/-- `SpuId`. -/
abbrev SpuId := Int32

/-- `OffsetInfo`: a replica's high watermark and log end offset. -/
structure OffsetInfo where
  hw : Int64
  leo : Int64
deriving DecidableEq, Repr

/-- `OffsetInfo::default`: nothing known yet. -/
instance : Inhabited OffsetInfo := ⟨⟨-1, -1⟩⟩

/-- `OffsetInfo::update`: each field moves up to the other's when that is larger; whether
anything changed. -/
def OffsetInfo.update (self other : OffsetInfo) : Bool × OffsetInfo :=
  let hwChange := decide (self.hw < other.hw)
  let leoChange := decide (self.leo < other.leo)
  (hwChange || leoChange,
    ⟨if hwChange then other.hw else self.hw, if leoChange then other.leo else self.leo⟩)

/-- `OffsetInfo::newer`. -/
def OffsetInfo.newer (self other : OffsetInfo) : Bool := decide (other.leo < self.leo) || decide (other.hw < self.hw)

/-- `OffsetInfo::is_committed`. -/
def OffsetInfo.isCommitted (self : OffsetInfo) : Bool := self.leo == self.hw

/-- `OffsetInfo::is_valid`: both offsets known, and the high watermark within the log. -/
def OffsetInfo.isValid (self : OffsetInfo) : Bool := !(self.hw == -1 || self.leo == -1) && decide (self.hw ≤ self.leo)

/-- `OffsetInfo::is_same`. -/
def OffsetInfo.isSame (self other : OffsetInfo) : Bool := self.hw == other.hw && self.leo == other.leo

/-- The followers in key order: `BTreeMap<SpuId, OffsetInfo>`. -/
abbrev Followers := List (SpuId × OffsetInfo)

/-- `qualified_leos_iter`: the followers' log end offsets above the leader's high watermark. -/
def qualifiedLeos (leader : OffsetInfo) (followers : Followers) : List Int64 :=
  (followers.map fun f => f.2.leo).filter fun leo => decide (leader.hw < leo)

/-- `min_lrs`: `min((min_replica - 1) as usize, followers.len())`. -/
def minLrs (minReplica : UInt16) (followers : Followers) : Nat :=
  min (minReplica - 1).toNat followers.length

/-- `compute_hw`: with no follower to wait for, the largest qualified log end offset;
otherwise `None` when fewer than `min_lrs` qualify, or the `min_lrs`-th largest. -/
def computeHw (leader : OffsetInfo) (minReplica : UInt16) (followers : Followers) : Option Int64 :=
  if minLrs minReplica followers = 0 then maxOf (qualifiedLeos leader followers)
  else heapSelect (minLrs minReplica followers) (qualifiedLeos leader followers)

example : computeHw ⟨0, 10⟩ 3 [(5001, ⟨4, 6⟩), (5002, ⟨4, 7⟩), (5003, ⟨4, 9⟩)] = some 7 := by decide

/-- The offsets replicated on `k` followers above the leader's high watermark: above the
high watermark, and reached by the log end offsets of `k` followers. -/
def Replicated (leader : OffsetInfo) (k : Nat) (followers : Followers) (x : Int64) : Prop :=
  leader.hw < x ∧ k ≤ followers.countP fun f => decide (x ≤ f.2.leo)

/-- Above the leader's high watermark, counting followers and counting qualified offsets
agree. -/
theorem countP_qualifiedLeos {leader : OffsetInfo} {followers : Followers} {x : Int64}
    (p : Int64 → Int64 → Bool) (hp : ∀ y, p x y = true → leader.hw < y) :
    (qualifiedLeos leader followers).countP (p x) = followers.countP fun f => p x f.2.leo := by
  rw [qualifiedLeos, List.countP_filter, List.countP_map]
  apply List.countP_congr
  intro f _
  simp only [Function.comp, Bool.and_eq_true, decide_eq_true_eq]
  exact ⟨fun h => h.1, fun h => ⟨h, hp _ h⟩⟩

/-- **The `k`-th largest qualified offset is the largest offset `k` followers have
reached.** -/
theorem reachable_iff_isKthLargest {leader : OffsetInfo} {k : Nat} {followers : Followers} {r : Int64}
    (hk : 0 < k) :
    (Replicated leader k followers r ∧ ∀ x, Replicated leader k followers x → x ≤ r) ↔
      IsKthLargest k (qualifiedLeos leader followers) r := by
  have hge : ∀ x, leader.hw < x → (qualifiedLeos leader followers).countP (fun y => decide (x ≤ y)) =
      followers.countP fun f => decide (x ≤ f.2.leo) := fun x hx =>
    countP_qualifiedLeos (fun x y => decide (x ≤ y)) fun y hy => Std.lt_of_lt_of_le hx (by simpa using hy)
  -- a `k`-th largest qualified offset is above the high watermark and reached by `k` followers
  have hreach : ∀ r', r' ∈ qualifiedLeos leader followers → IsKthLargest k (qualifiedLeos leader followers) r' →
      Replicated leader k followers r' := by
    intro r' hmem hkth
    have hr' : leader.hw < r' := by simpa [qualifiedLeos] using (List.mem_filter.mp hmem).2
    exact ⟨hr', hge r' hr' ▸ hkth.1⟩
  have hlen : k ≤ (qualifiedLeos leader followers).countP (fun y => decide (r ≤ y)) →
      k ≤ (qualifiedLeos leader followers).length := fun h => Nat.le_trans h (List.countP_le_length)
  constructor
  · rintro ⟨⟨hr, hcount⟩, hmax⟩
    have hcountQ := (hge r hr).symm ▸ hcount
    obtain ⟨r', hmem, hkth⟩ := exists_isKthLargest hk (hlen hcountQ)
    -- the `k`-th largest is reachable, so it is at most `r`: fewer than `k` are above `r`
    have hle : r' ≤ r := hmax r' (hreach r' hmem hkth)
    have habove : (qualifiedLeos leader followers).countP (fun y => decide (r < y)) ≤
        (qualifiedLeos leader followers).countP (fun y => decide (r' < y)) :=
      List.countP_mono_left fun y _ hy => by
        simp only [decide_eq_true_eq] at hy ⊢
        exact Std.lt_of_le_of_lt hle hy
    exact ⟨hcountQ, Nat.lt_of_le_of_lt habove hkth.2⟩
  · intro hkth
    obtain ⟨r', hmem, hkth'⟩ := exists_isKthLargest hk (hlen hkth.1)
    obtain rfl := hkth'.unique hkth
    refine ⟨hreach r' hmem hkth', fun x ⟨hx, hcount⟩ => hkth.le_of_count ?_⟩
    rw [hge x hx]
    exact hcount

/-- **What `compute_hw` returns.** With `k = min(min_replica - 1, followers)` and the
qualified offsets those above the leader's high watermark: for `k = 0` their maximum, and
nothing when there is none; otherwise nothing when fewer than `k` qualify, and else the
largest offset above the high watermark that `k` followers have reached. -/
theorem computeHw_spec (leader : OffsetInfo) {minReplica : UInt16} (hmin : 1 ≤ minReplica.toNat)
    (followers : Followers) :
    minLrs minReplica followers = min (minReplica.toNat - 1) followers.length ∧
    (minLrs minReplica followers = 0 →
      (computeHw leader minReplica followers = none ↔ qualifiedLeos leader followers = []) ∧
      ∀ r, computeHw leader minReplica followers = some r →
        r ∈ qualifiedLeos leader followers ∧ ∀ x ∈ qualifiedLeos leader followers, x ≤ r) ∧
    (0 < minLrs minReplica followers →
      (computeHw leader minReplica followers = none ↔
        (qualifiedLeos leader followers).length < minLrs minReplica followers) ∧
      ∀ r, computeHw leader minReplica followers = some r ↔
        Replicated leader (minLrs minReplica followers) followers r ∧
          ∀ x, Replicated leader (minLrs minReplica followers) followers x → x ≤ r) := by
  refine ⟨?_, fun hzero => ?_, fun hpos => ?_⟩
  · have hsub : (minReplica - 1).toNat = minReplica.toNat - 1 := by
      rw [UInt16.toNat_sub_of_le]
      · rfl
      · exact UInt16.le_iff_toNat_le.mpr hmin
    rw [minLrs, hsub]
  · simp only [computeHw, hzero, if_true]
    exact ⟨maxOf_eq_none, fun r hr => maxOf_spec hr⟩
  · have hne : minLrs minReplica followers ≠ 0 := Nat.pos_iff_ne_zero.mp hpos
    simp only [computeHw, hne, if_false]
    refine ⟨heapSelect_eq_none hpos, fun r => ?_⟩
    rw [reachable_iff_isKthLargest hpos]
    constructor
    · exact heapSelect_isKthLargest hpos
    · intro hkth
      obtain ⟨r', hr'⟩ := Option.isSome_iff_exists.mp
        (heapSelect_isSome hpos (Nat.le_trans hkth.1 List.countP_le_length))
      rw [hr', (heapSelect_isKthLargest hpos hr').unique hkth]

/-- One follower of two replicas at `4`, the leader's high watermark at `0`: the high
watermark may rise to `4` and no further. -/
theorem computeHw_oneFollower :
    1 ≤ (2 : UInt16).toNat ∧ computeHw ⟨0, 10⟩ 2 [(5001, ⟨0, 4⟩)] = some 4 ∧
      ∀ x, Replicated ⟨0, 10⟩ (minLrs 2 [(5001, ⟨0, 4⟩)]) [(5001, ⟨0, 4⟩)] x → x ≤ 4 := by
  obtain ⟨-, -, hpos⟩ := computeHw_spec ⟨0, 10⟩ (by decide : 1 ≤ (2 : UInt16).toNat) [(5001, ⟨0, 4⟩)]
  have hsome : computeHw ⟨0, 10⟩ 2 [(5001, ⟨0, 4⟩)] = some 4 := by decide
  exact ⟨by decide, hsome, (((hpos (by decide)).2 4).mp hsome).2⟩

end Fluvio.Replication
