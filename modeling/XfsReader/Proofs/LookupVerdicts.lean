import XfsReader.Proofs.CandidateVerdicts
import XfsReader.Proofs.Lookup

-- A lookup by hash puts one slot after another to the test, in the order of the leaf blocks. The first
-- that is not passed over decides.
namespace XfsReader
namespace InodeFork

section Slots

variable {opened : InodeFork} {device : Device} {data : List Extent} {name : Name} {slot : LeafSlot}
  {slots front back : List LeafSlot}

-- A slot that is passed over leaves the rest to decide, and any other decides at once.
theorem probe_cons (slot : LeafSlot) (slots : List LeafSlot) :
    (opened.probe data name (slot :: slots)).eval device =
      if opened.verdict device data name slot = .missed then (opened.probe data name slots).eval device
      else (opened.verdict device data name slot).outcome := by
  unfold verdict
  cases led : (opened.candidate data slot).eval device with
  | error error =>
    rw [probe,Traversal.eval_bind,led]
    rfl
  | ok found =>
    rw [probe_step led]
    cases found with
    | none => rfl
    | some entry =>
      by_cases named : entry.name = name
      · simp [Option.filter,Verdict.ofCandidate,Verdict.outcome,named]
      · simp [Option.filter,Verdict.ofCandidate,named]

theorem probe_first (missed : ∀ earlier ∈ front, opened.verdict device data name earlier = .missed)
    (decided : opened.verdict device data name slot ≠ .missed) :
    (opened.probe data name (front ++ slot :: back)).eval device = (opened.verdict device data name slot).outcome := by
  induction front with
  | nil => rw [List.nil_append,probe_cons,if_neg decided]
  | cons first front ih =>
    rw [List.cons_append,probe_cons,if_pos (missed first List.mem_cons_self)]
    exact ih fun earlier member => missed earlier (List.mem_cons_of_mem first member)

theorem probe_eq_none : (opened.probe data name slots).eval device = .ok none ↔
    ∀ slot ∈ slots, opened.verdict device data name slot = .missed := by
  induction slots with
  | nil =>
    refine ⟨fun _ slot member => (nomatch member),fun _ => rfl⟩
  | cons slot slots ih =>
    rw [List.forall_mem_cons,probe_cons]
    split
    · rename_i missed
      rw [ih]
      exact ⟨fun rest => ⟨missed,rest⟩,And.right⟩
    · rename_i decided
      rw [Verdict.outcome_eq_none]
      exact ⟨fun same => absurd same decided,And.left⟩

end Slots

-- The leaf blocks that come of one block of the leaf segment: one or none.
def leavesAt (opened : InodeFork) (device : Device) (extent : Extent) (index : Nat) : List LeafBlock :=
  ((opened.leafBlock extent index).eval device).toOption.getD []

end InodeFork

section Volume

variable {volume : Volume} {opened : InodeFork} {device : Device} {inode : UInt64} {map : ExtentMap}
  {leaves : List LeafBlock} {name : Name}

theorem InodeFork.walk_layout {tree : BtreeKind} (walked : (opened.walk tree).eval device = .ok map) :
    opened.fork.layout ≠ .shortform := by
  intro layout
  obtain ⟨literal,_,walked⟩ := Traversal.eval_bind_eq_ok.mp walked
  obtain ⟨found,mapped,_⟩ := Traversal.eval_bind_eq_ok.mp walked
  rw [readMap,layout] at mapped
  cases mapped

theorem InodeFork.lookup_probes (walked : (opened.walk .directory).eval device = .ok map)
    (read : (opened.leafBlocks (Segments.split opened.blockSize map.extents).leaf).eval device = .ok leaves)
    (held : leaves ≠ []) (name : Name) :
    (opened.lookup name).eval device =
      (opened.probe (Segments.split opened.blockSize map.extents).data name (slotsOf leaves (nameHash name))).eval
        device := by
  rw [opened.lookup_mapped (walk_layout walked)]
  simp only [Traversal.eval_bind,walked,Except.bind,read]
  rw [if_neg (by simpa using held)]

-- The block of a slot lies in the data segment, so that no extent of another one holds it.
theorem InodeFork.slot_in_data (opened : InodeFork) (slot : LeafSlot) {extents : List Extent} {extent : Extent}
    (member : extent ∈ extents) (held : extent.containsBlock (opened.slotBlock slot)) :
    extent ∈ (Segments.split opened.blockSize extents).data ∧ extent ∉ (Segments.split opened.blockSize extents).leaf ∧
      extent ∉ (Segments.split opened.blockSize extents).free := by
  have early : extent.startOffset.toNat * opened.blockSize.bytes < leafSegmentStart := by
    calc extent.startOffset.toNat * opened.blockSize.bytes
        ≤ opened.slotBlock slot * opened.blockSize.bytes := Extent.le_of_containsBlock (Nat.le_refl _) held
      _ ≤ slot.byteOffset := Nat.div_mul_le_self _ _
      _ < leafSegmentStart := slot.byteOffset_lt
  have wider : leafSegmentStart ≤ freeSegmentStart := by decide
  refine ⟨Segments.mem_data.mpr ⟨member,early⟩,?_,?_⟩
  · intro leaf
    exact Nat.not_lt.mpr (Segments.mem_leaf.mp leaf).2.1 early
  · intro free
    exact Nat.not_lt.mpr (Nat.le_trans wider (Segments.mem_free.mp free).2) early

-- Among the reads of a lookup by hash those of data blocks are for its slots.
theorem InodeFork.lookup_data_reads (walked : (opened.walk .directory).eval device = .ok map)
    (read : (opened.leafBlocks (Segments.split opened.blockSize map.extents).leaf).eval device = .ok leaves)
    (held : leaves ≠ []) {request : ReadRequest} (asked : request ∈ ((opened.lookup name).run device).reads)
    (role : request.role = some .dataBlock) :
    ∃ slot ∈ slotsOf leaves (nameHash name),
      opened.SlotRead (Segments.split opened.blockSize map.extents).data slot request := by
  rw [opened.lookup_mapped (walk_layout walked)] at asked
  have walks : (opened.walk .directory).Follows fun request _ => request.role ≠ some .dataBlock :=
    walk_follows_of .directory nofun fun _ _ _ _ => nofun
  rcases Traversal.asked_of_bind asked with walk | ⟨other,again,asked⟩
  · obtain ⟨_,kept⟩ := walks.reads device walk
    exact absurd role kept
  · cases walked.symm.trans again
    rcases Traversal.asked_of_bind asked with leaf | ⟨others,again,asked⟩
    · obtain ⟨_,kept⟩ := (leafBlocks_reads _).reads device leaf
      cases role.symm.trans kept.blockAt.1
    · cases read.symm.trans again
      rw [if_neg (by simpa using held)] at asked
      obtain ⟨_,kept⟩ := (probe_asks _ name _).reads device asked
      exact kept

-- A lookup by hash takes the live slots of the name's hash in the order of the leaf extents, their
-- blocks and their slots. Each slot is judged in one way, and the first that is not passed over gives
-- the result. Their blocks lie below 32 GiB, so that only extents of the data segment hold them.
theorem lookup_decided_by_first_verdict (known : volume.openFork inode .data = .ok opened)
    (walked : (opened.walk .directory).eval device = .ok map)
    (read : (opened.leafBlocks (Segments.split opened.blockSize map.extents).leaf).eval device = .ok leaves)
    (held : leaves ≠ []) (name : Name) :
    let segments := Segments.split opened.blockSize map.extents
    let slots := (leaves.flatMap LeafBlock.liveSlots).filter fun slot => slot.hash = nameHash name
    let found := (volume.lookup inode name).eval device
    leaves = (segments.leaf.flatMap fun extent =>
      (List.range extent.blockCount.toNat).flatMap (opened.leavesAt device extent)) ∧
    (∀ slot, ∃! verdict, opened.Judged device segments.data name slot verdict) ∧
    (∀ front slot back verdict, slots = front ++ slot :: back →
      (∀ earlier ∈ front, opened.Judged device segments.data name earlier .missed) →
      opened.Judged device segments.data name slot verdict → verdict ≠ .missed → found = verdict.outcome) ∧
    (found = .ok none ↔ ∀ slot ∈ slots, opened.Judged device segments.data name slot .missed) ∧
    (∀ slot : LeafSlot, slot.byteOffset < 32 * 2 ^ 30 ∧ ∀ extent ∈ map.extents,
      extent.containsBlock (opened.slotBlock slot) →
        extent ∈ segments.data ∧ extent ∉ segments.leaf ∧ extent ∉ segments.free) ∧
    ∀ request ∈ ((volume.lookup inode name).run device).reads, request.role = some .dataBlock →
      ∃ slot ∈ slots, opened.SlotRead segments.data slot request := by
  intro segments slots found
  have ordered : Ordered segments.data := ((opened.walk_ordered .directory).eval walked).filter _
  have asks : volume.lookup inode name = opened.lookup name := by rw [Volume.lookup,known]; rfl
  have probes : found = (opened.probe segments.data name slots).eval device := by
    change (volume.lookup inode name).eval device = _
    rw [asks]
    exact InodeFork.lookup_probes walked read held name
  refine ⟨forExtents_eval read,?single,?first,?none,?below,?reads⟩
  case single =>
    intro slot
    refine ⟨_,(InodeFork.judged_iff ordered).mpr rfl,?_⟩
    intro verdict judged
    exact (judged.verdict_eq ordered).symm
  case first =>
    intro front slot back verdict listed missed judged decided
    have same := judged.verdict_eq ordered
    rw [probes,listed,← same]
    rw [← same] at decided
    exact InodeFork.probe_first (fun earlier member => (missed earlier member).verdict_eq ordered) decided
  case none =>
    rw [probes,InodeFork.probe_eq_none]
    simp only [InodeFork.judged_iff ordered]
  case below =>
    intro slot
    refine ⟨slot.byteOffset_lt,?_⟩
    intro extent member within
    exact opened.slot_in_data slot member within
  case reads =>
    intro request asked role
    rw [asks] at asked
    exact InodeFork.lookup_data_reads walked read held asked role

end Volume

-- Of four slots with the hash of abcde the first is not used, the second leads to another name, the
-- third into unused space, and only the fourth to the entry.
def judgedSlots : List LeafSlot := [⟨0x1C58F263,0⟩,⟨0x1C58F263,4⟩,⟨0x1C58F263,6⟩,⟨0x1C58F263,2⟩]

def judgedDirectory : Device :=
  leafDirectory judgedSlots
    [(0,[0x58,0x44,0x32,0x44]),
      (16,[0,0,0,0,0,0,0,11,5,0x61,0x62,0x63,0x64,0x65,0,16]),
      (32,[0,0,0,0,0,0,0,12,5,0x71,0x62,0x63,0x64,0x64,0,32]),
      (48,[0xFF,0xFF,0x01,0xD0])]

theorem lookup_decided_by_first_verdict_unused :
    let opened : InodeFork := ⟨leafDirectoryVolume,5,leafDirectoryFork⟩
    let data : List Extent := [⟨0,1,1,.normal⟩]
    let name : Name := [0x61,0x62,0x63,0x64,0x65]
    leafDirectoryVolume.openFork 5 .data = .ok opened ∧
      (opened.walk .directory).eval judgedDirectory =
        .ok ⟨[⟨0,1,1,.normal⟩,⟨0x4000000,2,1,.normal⟩],.inline,0⟩ ∧
      (opened.leafBlocks [⟨0x4000000,2,1,.normal⟩]).eval judgedDirectory =
        .ok [⟨⟨0,0,.dirLeaf1,none⟩,1,judgedSlots⟩] ∧
      opened.Judged judgedDirectory data name ⟨0x1C58F263,4⟩ .missed ∧
      opened.Judged judgedDirectory data name ⟨0x1C58F263,2⟩ (.hit ⟨name,11,16,16,none⟩) ∧
      (leafDirectoryVolume.lookup 5 name).eval judgedDirectory = .error (.corruption 512 (.addressUnused 6)) := by
  intro opened data name
  have known : leafDirectoryVolume.openFork 5 .data = .ok opened := rfl
  have walked : (opened.walk .directory).eval judgedDirectory =
      .ok ⟨[⟨0,1,1,.normal⟩,⟨0x4000000,2,1,.normal⟩],.inline,0⟩ := eq_ok_of_toOption (by decide +kernel)
  have read : (opened.leafBlocks [⟨0x4000000,2,1,.normal⟩]).eval judgedDirectory =
      .ok [⟨⟨0,0,.dirLeaf1,none⟩,1,judgedSlots⟩] := eq_ok_of_toOption (by decide +kernel)
  obtain ⟨_,_,first,_⟩ := lookup_decided_by_first_verdict known walked read (List.cons_ne_nil _ _) name
  have ordered : Ordered data := List.pairwise_singleton _ _
  have missed : opened.Judged judgedDirectory data name ⟨0x1C58F263,4⟩ .missed :=
    (InodeFork.judged_iff ordered).mpr (by decide +kernel)
  have unused : opened.Judged judgedDirectory data name ⟨0x1C58F263,6⟩
      (.refused (.corruption 512 (.addressUnused 6))) := (InodeFork.judged_iff ordered).mpr (by decide +kernel)
  have hit : opened.Judged judgedDirectory data name ⟨0x1C58F263,2⟩ (.hit ⟨name,11,16,16,none⟩) :=
    (InodeFork.judged_iff ordered).mpr (by decide +kernel)
  refine ⟨known,walked,read,missed,hit,?_⟩
  refine first [⟨0x1C58F263,4⟩] ⟨0x1C58F263,6⟩ [⟨0x1C58F263,2⟩] _ (by decide) ?_ unused nofun
  intro earlier member
  rw [List.mem_singleton.mp member]
  exact missed

end XfsReader
