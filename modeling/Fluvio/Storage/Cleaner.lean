import Fluvio.Storage.Replica
import Fluvio.Lib.Trace

/-!
A replica and its cleaner running at once (`cleaner.rs`, `segments.rs`).

The cleaner removes previous segments with `SharedSegments::remove_segment`, which
takes the list's lock, removes the segment, computes the new smallest base, drops
the lock and only then stores that base in the atomic `min_offset`. A roll-over in
the writing task adds the old active segment with `add_segment`, which stores the
atomic while it holds the lock. When the cleaner has removed the last previous
segment, a roll-over between its two parts stores the new segment's base, and the
cleaner then overwrites it with `-1` (`SharedSegments.storeMin_stale`):
`get_log_start_offset` falls back to the active segment while an older segment is
still in the list (`cleaner_race_hides_segment`).

`ReplicaTasks` is the replica with the cleaner's pending store, and
`ReplicaTasks.next` lets the write path, the high watermark and the two parts of a
removal interleave.
-/

namespace Fluvio.Storage

open Fluvio.Protocol

/-- The bases of the previous segments in key order, then the active segment's. -/
def FileReplica.bases (r : FileReplica) : List Int64 :=
  r.prevSegments.list.segments.map ReadSegment.baseOffset ++ [r.activeSegment.baseOffset]

/-! ### The race on the cached smallest base -/

@[simp] theorem SegmentList.ofSegments_segments (segments : List ReadSegment) :
    (SegmentList.ofSegments segments).segments = segments := rfl

@[simp] theorem minMax_nil : minMax [] = (-1, 0) := rfl

/-- **A roll-over between the two parts of the cleaner's last removal is forgotten**: the
list holds the rolled-over segment, and the atomic smallest base says there is none. -/
theorem SharedSegments.storeMin_stale {shared : SharedSegments} {s : ReadSegment}
    (hone : shared.list.segments = [s]) (t : ReadSegment) :
    (((shared.removeLocked s.baseOffset).1.addSegment t).storeMin (shared.removeLocked s.baseOffset).2) =
      ⟨SegmentList.ofSegments [t], -1⟩ := by
  have hremove : shared.list.removeSegment s.baseOffset = some ((s, -1), SegmentList.ofSegments []) := by
    simp [SegmentList.removeSegment, hone, eraseSegment]
    rfl
  simp [SharedSegments.removeLocked, hremove, SharedSegments.addSegment, SegmentList.addSegment,
    insertSegment, SharedSegments.storeMin]

/-! ### The replica and its cleaner -/

/-- The replica and the cleaner task: `cleanerPending` is the smallest base a removal will
store once it has dropped the lock. -/
structure ReplicaTasks where
  replica : FileReplica
  cleanerPending : Option (Option Int64)

/-- What the tasks do: the writing task's calls, and the cleaner's removal in its two parts. -/
inductive ReplicaAction (R : Type)
  | writeRecordset (records : RecordSet R) (updateHighwatermark : Bool)
  | updateHighWatermark (offset : Int64)
  | removeLocked (offset : Int64)
  | storeMin

/-- One action. A write that panics or never returns ends the run; the cleaner removes one
segment at a time. -/
def ReplicaTasks.next {R : Type} [Crc32c] [Encoder R] (s : ReplicaTasks) :
    ReplicaAction R → Option ReplicaTasks
  | .writeRecordset records update =>
    match s.replica.writeRecordset records update with
    | (.error (.panic _), _, _) => none
    | (.error .diverge, _, _) => none
    | (_, replica, _) => some { s with replica }
  | .updateHighWatermark offset => some { s with replica := (s.replica.updateHighWatermark offset).2 }
  | .removeLocked offset =>
    match s.cleanerPending with
    | some _ => none
    | none =>
      let (prevSegments, pending) := s.replica.prevSegments.removeLocked offset
      some ⟨{ s.replica with prevSegments }, some pending⟩
  | .storeMin =>
    match s.cleanerPending with
    | some pending => some ⟨{ s.replica with prevSegments := s.replica.prevSegments.storeMin pending }, none⟩
    | none => none

/-- A replica whose segments take one `oneBatchSet` batch each. -/
def tinyReplica : FileReplica := FileReplica.create 0 1024 100

/-- Two writes fill two segments; the cleaner removes the first, and a third write rolls the
second over before the cleaner stores the smallest base. -/
def raceTrace : List (ReplicaAction RawRecords) :=
  [.writeRecordset oneBatchSet false, .writeRecordset oneBatchSet false, .removeLocked 0,
    .writeRecordset oneBatchSet false, .storeMin]

/-- In the state the race reaches, the log start offset is the active segment's base `2`,
while the segment at `1` is still in the list. -/
theorem cleaner_race_hides_segment :
    Trace.Reachable (ReplicaTasks.next (R := RawRecords)) ⟨tinyReplica, none⟩
      ((Trace.run ReplicaTasks.next ⟨tinyReplica, none⟩ raceTrace).getD ⟨tinyReplica, none⟩) ∧
    (Trace.run ReplicaTasks.next ⟨tinyReplica, none⟩ raceTrace).map
      (fun s => (s.replica.getLogStartOffset, s.replica.bases)) = some (2, [1, 2]) := by
  have hrun : (Trace.run ReplicaTasks.next ⟨tinyReplica, none⟩ raceTrace).isSome = true := by
    decide +kernel
  obtain ⟨s, hs⟩ := Option.isSome_iff_exists.mp hrun
  refine ⟨by rw [hs]; exact Trace.reachable_of_run hs, ?_⟩
  decide +kernel

end Fluvio.Storage
