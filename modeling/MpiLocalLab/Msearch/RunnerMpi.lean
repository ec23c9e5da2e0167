import MpiLocalLab.Library.Blocks
import MpiLocalLab.Library.Machine
import MpiLocalLab.Msearch.RunnerLocal

namespace MpiLocalLab.Msearch

-- A rank is between two of its MPI calls, or inside a collective that it has entered and not yet
-- left. Locking the window for all ranks changes nothing in the model and is left out.

/-- A collective operation with what the rank contributes to it. -/
inductive Collective where
  | winAllocate
  | barrier
  | winFree
  | gather (sendInts : ℤ)
  | gatherv (data : List ℤ)
  | allreduce (localFailed : ℤ)
deriving DecidableEq, Repr

inductive CollectiveKind where
  | winAllocate
  | barrier
  | winFree
  | gather
  | gatherv
  | allreduce
deriving DecidableEq, Repr

def Collective.kind : Collective → CollectiveKind
  | .winAllocate => .winAllocate
  | .barrier => .barrier
  | .winFree => .winFree
  | .gather _ => .gather
  | .gatherv _ => .gatherv
  | .allreduce _ => .allreduce

inductive RankPc where
  | start
  | inWinAllocate
  | inBarrier
  | claiming
  | searching (index : ℕ)
  | recording (index : ℕ) (found : Match)
  | inWinFree
  | inGather
  | inGatherv
  | inAllreduce
  | returned
deriving DecidableEq, Repr

/-- The variables of one rank. `posted` lists the collectives it has entered and `claimed`
the picture indices it has claimed, both in order; `results` is its `matches` array. -/
structure RankState where
  pc : RankPc
  status : Status
  err : String
  records : List ℤ
  recordCount : ℕ
  counts : List ℤ
  displs : List ℤ
  results : List Match
  gatherStatus : Status
  localFailed : ℤ
  posted : List Collective
  claimed : List ℕ
deriving DecidableEq

/-- The counter in rank 0's window, and the ranks. -/
structure MpiState where
  counter : ℤ
  ranks : List RankState
deriving DecidableEq

/-- What each rank's calls return: `create` and the record buffer of each rank, the search
of each picture by each rank, and rank 0's gather buffers. A search that fails leaves
`partialOut` behind. -/
structure Failures where
  create : ℕ → Outcome
  records : ℕ → Bool
  search : ℕ → ℕ → Outcome
  partialOut : ℕ → ℕ → Match
  counts : Bool
  displs : Bool
  gathered : Bool

/-- A distributed run: the arguments of `msearch_run_mpi`, the search that all ranks
share, the failures, and what is in the counter's memory at first. -/
structure MpiJob (R : Type*) where
  problem : Problem R
  worldSize : ℕ
  search : Picture → Match
  failures : Failures
  results : ℕ → List Match
  counter : ℤ
  room : problem.numPictures.toNat ≤ (results 0).length

/-- `RECORD_INTS` -/
def recordInts : ℕ := 4

def RankState.post (rs : RankState) (c : Collective) (pc : RankPc) : RankState :=
  { rs with posted := rs.posted ++ [c], pc := pc }

namespace MpiJob

variable {R : Type*} (job : MpiJob R)

/-- From entry to `MPI_Win_allocate`, or the local run of a single rank. -/
def enter (r : ℕ) (rs : RankState) : RankState :=
  if job.worldSize = 1 then
    let (outcome, results) := msearchRunLocal job.problem job.search (job.failures.create r)
      (job.failures.search r) (job.failures.partialOut r) rs.results
    { rs with status := outcome.status, err := outcome.err, results := results, pc := .returned }
  else
    let outcome := job.failures.create r
    let outcome :=
      if outcome.status = .ok ∧ 0 < job.problem.numPictures ∧ job.failures.records r = false then
        ⟨.errNomem, "cannot allocate result records"⟩
      else outcome
    { rs with status := outcome.status, err := outcome.err }.post .winAllocate .inWinAllocate

/-- From the barrier to the first claim, or past the loop. -/
def enterLoop (rs : RankState) : RankState :=
  if rs.status = .ok then { rs with recordCount := 0, pc := .claiming }
    else rs.post .winFree .inWinFree

/-- What a rank does with the value that its fetch-and-add returned. -/
def claim (index : ℤ) (rs : RankState) : RankState :=
  if job.problem.numPictures ≤ index then rs.post .winFree .inWinFree
  else { rs with claimed := rs.claimed ++ [index.toNat], pc := .searching index.toNat }

def searched (r index : ℕ) (rs : RankState) : RankState :=
  let outcome := job.failures.search r index
  if outcome.status ≠ .ok then
    { rs with status := outcome.status, err := outcome.err }.post .winFree .inWinFree
  else { rs with pc := .recording index (job.search (job.problem.pictureAt index)) }

/-- Appends a record; `none` is a store behind the end of the buffer. -/
def append (index : ℕ) (found : Match) (rs : RankState) : Option RankState :=
  if rs.recordCount < job.problem.numPictures.toNat then
    some { rs with
      records := rs.records ++ [(index : ℤ), found.objectId, found.row, found.col]
      recordCount := rs.recordCount + 1
      pc := .claiming }
  else none

/-- Rank 0 gets its gather buffers. -/
def gatherAllocated : Bool :=
  job.failures.counts && job.failures.displs &&
    (decide (job.problem.numPictures ≤ 0) || job.failures.gathered)

/-- From the return of `gather_records` to `MPI_Allreduce`. -/
def enterReduce (rs : RankState) : RankState :=
  let status := if rs.status = .ok then rs.gatherStatus else rs.status
  let localFailed := if status ≠ .ok then 1 else 0
  { rs with status := status, localFailed := localFailed }.post
    (.allreduce localFailed) .inAllreduce

/-- From the entry of `gather_records` to `MPI_Gather`. -/
def enterGather (r : ℕ) (rs : RankState) : RankState :=
  if r = 0 ∧ job.gatherAllocated = false then
    enterReduce { rs with gatherStatus := .errNomem, err := "cannot allocate gather buffers" }
  else { rs with gatherStatus := .ok }.post (.gather (rs.recordCount * recordInts)) .inGather

def enterGatherv (r : ℕ) (counts : List ℤ) (rs : RankState) : RankState :=
  let rs := if r = 0 then { rs with counts := counts, displs := displacements 0 counts } else rs
  rs.post (.gatherv (rs.records.take (rs.recordCount * recordInts))) .inGatherv

/-- The loop over `gathered`, with `rounds` rounds left from element `i` on. The first
component is an index that is out of range. -/
def scatterLoop (gathered : List ℤ) (total : ℤ) : ℕ → ℕ → List Match → Option ℤ × List Match
  | 0, _, results => (none, results)
  | rounds + 1, i, results =>
    if total ≤ i then (none, results)
    else
      let index := gathered[i]?.getD 0
      if index < 0 ∨ job.problem.numPictures ≤ index then (some index, results)
      else
        let found : Match := {
          pictureId := (job.problem.pictureAt index.toNat).id
          objectId := gathered[i + 1]?.getD 0
          row := gathered[i + 2]?.getD 0
          col := gathered[i + 3]?.getD 0 }
        scatterLoop gathered total rounds (i + recordInts) (results.set index.toNat found)

/-- The loop that marks every picture as having no match. -/
def clearResults (results : List Match) : List Match :=
  (List.range job.problem.numPictures.toNat).foldl
    (fun results i => results.set i (msearchMatchNone (job.problem.pictureAt i).id)) results

/-- What rank 0 does with the gathered records. -/
def scatter (gathered : List ℤ) (rs : RankState) : RankState :=
  let results := job.clearResults rs.results
  let total := rs.counts.sum
  match job.scatterLoop gathered total total.toNat 0 results with
  | (none, results) => { rs with results := results }
  | (some index, results) =>
    { rs with
      results := results
      gatherStatus := .errBackend
      err := s!"gathered out-of-range picture index {index}" }

/-- From the end of `MPI_Gatherv` to `MPI_Allreduce`; `none` is a block that does not fit
into `gathered`. -/
def leaveGatherv (r : ℕ) (sent : List (List ℤ)) (rs : RankState) : Option RankState :=
  if r = 0 then
    (writeBlocks (List.replicate (job.problem.numPictures.toNat * recordInts) 0) rs.displs sent).map
      fun gathered => enterReduce (job.scatter gathered rs)
  else some (enterReduce rs)

def leaveAllreduce (localFailed : List ℤ) (rs : RankState) : RankState :=
  let anyFailed := localFailed.foldl max 0
  if anyFailed ≠ 0 ∧ rs.status = .ok then
    { rs with status := .errBackend, err := "another rank reported a failure", pc := .returned }
  else { rs with pc := .returned }

end MpiJob

/-- What a rank contributed to the collective at `position` of its list. -/
def RankState.sendInts (rs : RankState) (position : ℕ) : ℤ :=
  match rs.posted[position]? with
  | some (.gather sendInts) => sendInts
  | _ => 0

def RankState.sentRecords (rs : RankState) (position : ℕ) : List ℤ :=
  match rs.posted[position]? with
  | some (.gatherv data) => data
  | _ => []

def RankState.sentFailed (rs : RankState) (position : ℕ) : ℤ :=
  match rs.posted[position]? with
  | some (.allreduce localFailed) => localFailed
  | _ => 0

def RankState.kinds (rs : RankState) : List CollectiveKind := rs.posted.map Collective.kind

/-- Every rank has gone through the same collectives as `rs`, up to the one that `rs` is in. -/
def MpiState.allReached (s : MpiState) (rs : RankState) : Bool :=
  s.ranks.all fun other => rs.kinds.isPrefixOf other.kinds

namespace MpiJob

variable {R : Type*} (job : MpiJob R)

/-- A step of a rank: the counter and the rank's variables after it. A rank leaves
`MPI_Barrier`, `MPI_Win_free` and `MPI_Allreduce` when all have entered them; rank 0
leaves `MPI_Gather` and `MPI_Gatherv` then, and the senders at any time. -/
def rankStep (s : MpiState) (r : ℕ) (rs : RankState) : Option (ℤ × RankState) :=
  let position := rs.posted.length - 1
  match rs.pc with
  | .start => some (s.counter, job.enter r rs)
  | .inWinAllocate =>
    -- rank 0 sets its counter between the two collectives
    some (if r = 0 then 0 else s.counter, rs.post .barrier .inBarrier)
  | .inBarrier => if s.allReached rs then some (s.counter, enterLoop rs) else none
  | .claiming => some (s.counter + 1, job.claim s.counter rs)
  | .searching index => some (s.counter, job.searched r index rs)
  | .recording index found => (job.append index found rs).map fun rs => (s.counter, rs)
  | .inWinFree => if s.allReached rs then some (s.counter, job.enterGather r rs) else none
  | .inGather =>
    if r = 0 ∧ s.allReached rs = false then none
    else some (s.counter, enterGatherv r (s.ranks.map (·.sendInts position)) rs)
  | .inGatherv =>
    if r = 0 ∧ s.allReached rs = false then none
    else (job.leaveGatherv r (s.ranks.map (·.sentRecords position)) rs).map fun rs =>
      (s.counter, rs)
  | .inAllreduce =>
    if s.allReached rs then some
      (s.counter, leaveAllreduce (s.ranks.map (·.sentFailed position)) rs)
    else none
  | .returned => none

def mpiStep (s : MpiState) (r : ℕ) : Option MpiState :=
  s.ranks[r]?.bind fun rs =>
    (job.rankStep s r rs).map fun (counter, rs') => ⟨counter, s.ranks.set r rs'⟩

/-- The ranks of a run of `msearch_run_mpi`, of which one takes a step at a time. -/
def mpiRun : Machine MpiState ℕ := ⟨job.mpiStep⟩

def startRank (r : ℕ) : RankState where
  pc := .start
  status := .ok
  err := ""
  records := []
  recordCount := 0
  counts := []
  displs := []
  results := job.results r
  gatherStatus := .ok
  localFailed := 0
  posted := []
  claimed := []

def startState : MpiState := ⟨job.counter, (List.range job.worldSize).map job.startRank⟩

end MpiJob

end MpiLocalLab.Msearch
