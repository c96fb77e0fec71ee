import XfsReader.Proofs.DirectoryScan

-- Lookup by hash against listing. Where the index leads to just what was scanned, both give the
-- same answers; where it does not, lookup may find what no listing shows, but only at an address
-- that the scan passes over.
namespace XfsReader

-- Each live slot leads to a place with an entry of its hash, and to each place some live slot leads.
structure DirectoryScan.Indexed (scan : DirectoryScan) : Prop where
  placed : ∀ leaf ∈ scan.leaves, ∀ slot ∈ leaf.liveSlots,
    ∃ placed ∈ scan.places, slot.byteOffset = placed.offset ∧ slot.hash = nameHash placed.entry.name
  reached : ∀ placed ∈ scan.places, ∃ leaf ∈ scan.leaves, ∃ slot ∈ leaf.liveSlots,
    slot.byteOffset = placed.offset ∧ slot.hash = nameHash placed.entry.name

namespace InodeFork

variable {opened : InodeFork} {device : Device} {scan : DirectoryScan} {name : Name}

theorem mem_slotsOf {leaves : List LeafBlock} {hash : UInt32} {slot : LeafSlot} :
    slot ∈ slotsOf leaves hash ↔ (∃ leaf ∈ leaves, slot ∈ leaf.liveSlots) ∧ slot.hash = hash := by
  simp [slotsOf]

theorem lookup_eval (mapped : opened.fork.layout ≠ .shortform) (scanned : opened.scanDirectory.eval device = .ok scan) :
    (opened.lookup name).eval device =
      if scan.leaves.isEmpty then .ok (scan.entries.find? fun entry => entry.name = name)
      else (opened.probe scan.data name (slotsOf scan.leaves (nameHash name))).eval device := by
  obtain ⟨map,walked,scanned⟩ := Traversal.eval_bind_eq_ok.mp scanned
  obtain ⟨leaves,checked,scanned⟩ := Traversal.eval_bind_eq_ok.mp scanned
  obtain ⟨places,placed,scanned⟩ := Traversal.eval_bind_eq_ok.mp scanned
  cases scanned
  rw [opened.lookup_mapped mapped]
  simp only [Traversal.eval_bind,walked,Except.bind,checked]
  split
  · simp only [dataEntries,Traversal.eval_bind,placed,Except.bind]
    rfl
  · rfl

theorem probe_step {data : List Extent} {slot : LeafSlot} {slots : List LeafSlot} {found : Option DirectoryEntry}
    (ran : (opened.candidate data slot).eval device = .ok found) :
    (opened.probe data name (slot :: slots)).eval device =
      match found.filter fun entry => entry.name = name with
      | some entry => .ok (some entry)
      | none => (opened.probe data name slots).eval device := by
  rw [probe,Traversal.eval_bind,ran]
  change Traversal.eval device (match found.filter fun entry => entry.name = name with
    | some entry => _
    | none => _) = _
  cases found.filter fun entry => entry.name = name <;> rfl

theorem probe_found {data : List Extent} {slots : List LeafSlot} {entry : DirectoryEntry}
    (ran : (opened.probe data name slots).eval device = .ok (some entry)) :
    entry.name = name ∧ ∃ slot ∈ slots, (opened.candidate data slot).eval device = .ok (some entry) := by
  induction slots with
  | nil => cases ran
  | cons slot slots ih =>
    obtain ⟨found,led,_⟩ := Traversal.eval_bind_eq_ok.mp ran
    rw [probe_step led] at ran
    split at ran
    · rename_i hit matched
      cases ran
      obtain ⟨same,named⟩ := Option.filter_eq_some_iff.mp matched
      subst same
      exact ⟨by simpa using named,slot,List.mem_cons_self,led⟩
    · obtain ⟨named,later,member,led⟩ := ih ran
      exact ⟨named,later,List.mem_cons_of_mem slot member,led⟩

theorem probe_decides (name : Name) {data : List Extent} {slots : List LeafSlot}
    (each : ∀ slot ∈ slots, ∃ entry, (opened.candidate data slot).eval device = .ok (some entry)) :
    (∃ entry, (opened.probe data name slots).eval device = .ok (some entry)) ∨
      ((opened.probe data name slots).eval device = .ok none ∧
        ∀ slot ∈ slots, ∀ entry, (opened.candidate data slot).eval device = .ok (some entry) → entry.name ≠ name) := by
  induction slots with
  | nil => exact .inr ⟨rfl,fun slot member => (nomatch member)⟩
  | cons slot slots ih =>
    obtain ⟨entry,led⟩ := each slot List.mem_cons_self
    rw [probe_step led]
    by_cases named : entry.name = name
    · exact .inl ⟨entry,by simp [Option.filter,named]⟩
    · have missed : (some entry).filter (fun entry => decide (entry.name = name)) = none := by
        simp [Option.filter,named]
      rw [missed]
      rcases ih fun later member => each later (List.mem_cons_of_mem slot member) with found | ⟨ended,others⟩
      · exact .inl found
      · refine .inr ⟨ended,?_⟩
        intro later member other leads
        rcases List.mem_cons.mp member with rfl | farther
        · rw [led] at leads
          cases leads
          exact named
        · exact others later farther other leads

end InodeFork

section Volume

variable {volume : Volume} {opened : InodeFork} {device : Device} {inode : UInt64} {entries : List DirectoryEntry}

theorem InodeFork.lookup_shortform (layout : opened.fork.layout = .shortform)
    (listed : opened.listDirectory.eval device = .ok entries) (name : Name) :
    (opened.lookup name).eval device = .ok (entries.find? fun entry => entry.name = name) := by
  rw [opened.listDirectory_unmapped layout] at listed
  rw [opened.lookup_unmapped layout]
  simp only [Traversal.eval_bind,listed]
  rfl

theorem InodeFork.listDirectory_scanned (mapped : opened.fork.layout ≠ .shortform)
    (listed : opened.listDirectory.eval device = .ok entries) :
    ∃ scan, opened.scanDirectory.eval device = .ok scan ∧ scan.entries = entries := by
  rw [listDirectory_scans mapped] at listed
  obtain ⟨scan,scanned,ended⟩ := Traversal.eval_bind_eq_ok.mp listed
  cases ended
  exact ⟨scan,scanned,rfl⟩

theorem find?_of_distinct (distinct : (entries.map (·.name)).Nodup) {entry : DirectoryEntry} (member : entry ∈ entries) :
    (entries.find? fun other => other.name = entry.name) = some entry := by
  induction entries with
  | nil => cases member
  | cons first rest ih =>
    rw [List.map_cons,List.nodup_cons] at distinct
    rcases List.mem_cons.mp member with rfl | later
    · simp
    · have unlike : first.name ≠ entry.name := by
        intro same
        exact distinct.1 (same ▸ List.mem_map_of_mem later)
      rw [List.find?_cons_of_neg (by simpa using unlike)]
      exact ih distinct.2 later

theorem find?_of_absent {name : Name} (absent : ∀ entry ∈ entries, entry.name ≠ name) :
    (entries.find? fun entry => entry.name = name) = none := by
  apply List.find?_eq_none.mpr
  intro entry member named
  exact absent entry member (by simpa using named)

theorem InodeFork.lookup_indexed {scan : DirectoryScan} (mapped : opened.fork.layout ≠ .shortform)
    (scanned : opened.scanDirectory.eval device = .ok scan) (held : scan.leaves ≠ [])
    (distinct : (scan.entries.map (·.name)).Nodup) (indexed : scan.Indexed) (name : Name) :
    (opened.lookup name).eval device = .ok (scan.entries.find? fun entry => entry.name = name) := by
  have of := scanDirectory_of scanned
  have leads : ∀ slot ∈ slotsOf scan.leaves (nameHash name),
      ∃ entry ∈ scan.entries, (opened.candidate scan.data slot).eval device = .ok (some entry) := by
    intro slot member
    obtain ⟨⟨leaf,held,live⟩,_⟩ := mem_slotsOf.mp member
    obtain ⟨placed,kept,offset,_⟩ := indexed.placed leaf held slot live
    exact ⟨placed.entry,List.mem_map_of_mem kept,candidate_placed of kept offset⟩
  have reached : ∀ entry ∈ scan.entries, entry.name = name →
      ∃ slot ∈ slotsOf scan.leaves (nameHash name),
        (opened.candidate scan.data slot).eval device = .ok (some entry) := by
    intro entry member named
    obtain ⟨placed,kept,rfl⟩ := List.mem_map.mp member
    obtain ⟨leaf,held,slot,live,offset,hash⟩ := indexed.reached placed kept
    exact ⟨slot,mem_slotsOf.mpr ⟨⟨leaf,held,live⟩,by rw [hash,named]⟩,candidate_placed of kept offset⟩
  rw [lookup_eval mapped scanned,if_neg (by simpa using held)]
  rcases probe_decides name fun slot member => (leads slot member).imp fun _ found => found.2 with
    ⟨entry,found⟩ | ⟨ended,missed⟩
  · obtain ⟨named,slot,member,led⟩ := probe_found found
    obtain ⟨other,listed,same⟩ := leads slot member
    rw [led] at same
    cases same
    rw [found,← named,find?_of_distinct distinct listed]
  · have absent : ∀ entry ∈ scan.entries, entry.name ≠ name := by
      intro entry member named
      obtain ⟨slot,among,led⟩ := reached entry member named
      exact missed slot among entry led named
    rw [ended,find?_of_absent absent]

-- Lookup agrees with listing. A directory in the literal area or without leaves is searched entry by
-- entry; any other is searched by its index, which has to fit what the scan finds.
theorem lookup_agrees_with_listing (known : volume.openFork inode .data = .ok opened)
    (listed : (volume.listDirectory inode).eval device = .ok entries) :
    (opened.fork.layout = .shortform →
      ∀ name, (volume.lookup inode name).eval device = .ok (entries.find? fun entry => entry.name = name)) ∧
    (opened.fork.layout ≠ .shortform →
      ∃ scan, opened.scanDirectory.eval device = .ok scan ∧ scan.entries = entries ∧
        (scan.leaves = [] →
          ∀ name, (volume.lookup inode name).eval device = .ok (entries.find? fun entry => entry.name = name)) ∧
        (scan.leaves ≠ [] → (entries.map (·.name)).Nodup → scan.Indexed →
          ∀ name,
            (∀ entry ∈ entries, entry.name = name →
              (volume.lookup inode name).eval device = .ok (some entry)) ∧
            ((∀ entry ∈ entries, entry.name ≠ name) →
              (volume.lookup inode name).eval device = .ok none))) := by
  have opens : volume.listDirectory inode = opened.listDirectory := by rw [Volume.listDirectory,known]; rfl
  have asks : ∀ name, volume.lookup inode name = opened.lookup name := by
    intro name
    rw [Volume.lookup,known]
    rfl
  rw [opens] at listed
  simp only [asks]
  refine ⟨fun layout => InodeFork.lookup_shortform layout listed,?_⟩
  intro mapped
  obtain ⟨scan,scanned,rfl⟩ := InodeFork.listDirectory_scanned mapped listed
  refine ⟨scan,scanned,rfl,?_,?_⟩
  · intro empty name
    rw [InodeFork.lookup_eval mapped scanned,if_pos (by simpa using empty)]
  · intro held distinct indexed name
    have answer := InodeFork.lookup_indexed mapped scanned held distinct indexed name
    refine ⟨?_,?_⟩
    · intro entry member named
      rw [answer,← named,find?_of_distinct distinct member]
    · intro absent
      rw [answer,find?_of_absent absent]

end Volume

-- A directory of one data block and one leaf block, with the slots of the leaf and some stretches of
-- the data block given.
def leafDirectory (slots : List LeafSlot) (data : List (Nat × List UInt8)) : Device :=
  let leaf : LeafBlock := ⟨⟨0,0,.dirLeaf1,none⟩,UInt16.ofNat (slots.countP LeafSlot.isStale),slots⟩
  .ofStretches 1536 ((0,Extent.encode ⟨0,1,1,.normal⟩ ++ Extent.encode ⟨0x4000000,2,1,.normal⟩) ::
    (1024,leaf.encode) :: data.map fun stretch => (512 + stretch.1,stretch.2))

def leafDirectoryFork : Fork := ⟨0,32,.extents 2,.v4⟩

def leafDirectoryVolume : Volume where
  geometry := .ofSizes 512 100 10
  ag := ⟨.smallest,100,10⟩
  forks := ForkTable.empty.insert 5 .data leafDirectoryFork
  options := .standard

-- Two entries whose names, abcde and qbcdd, have one hash, with a slot of that hash no longer used.
def collidingSlots : List LeafSlot := [⟨0x1C58F263,0⟩,⟨0x1C58F263,4⟩,⟨0x1C58F263,2⟩]

def collidingDirectory : Device :=
  leafDirectory collidingSlots
    [(0,[0x58,0x44,0x32,0x44]),
      (16,[0,0,0,0,0,0,0,11,5,0x61,0x62,0x63,0x64,0x65,0,16]),
      (32,[0,0,0,0,0,0,0,12,5,0x71,0x62,0x63,0x64,0x64,0,32]),
      (48,[0xFF,0xFF,0x01,0xD0])]

def collidingEntries : List DirectoryEntry :=
  [⟨[0x61,0x62,0x63,0x64,0x65],11,16,16,none⟩,⟨[0x71,0x62,0x63,0x64,0x64],12,32,16,none⟩]

def collidingScan : DirectoryScan where
  data := [⟨0,1,1,.normal⟩]
  leaves := [⟨⟨0,0,.dirLeaf1,none⟩,1,collidingSlots⟩]
  places := collidingEntries.map fun entry => ⟨entry.tag.toNat,entry⟩

-- The third name, Abcdg, has the hash as well and is not there.
theorem lookup_agrees_with_listing_colliding :
    leafDirectoryVolume.openFork 5 .data = .ok ⟨leafDirectoryVolume,5,leafDirectoryFork⟩ ∧
      (leafDirectoryVolume.listDirectory 5).eval collidingDirectory = .ok collidingEntries ∧
      (∀ entry ∈ collidingEntries,
        (leafDirectoryVolume.lookup 5 entry.name).eval collidingDirectory = .ok (some entry)) ∧
      (leafDirectoryVolume.lookup 5 [0x41,0x62,0x63,0x64,0x67]).eval collidingDirectory = .ok none := by
  have known : leafDirectoryVolume.openFork 5 .data = .ok ⟨leafDirectoryVolume,5,leafDirectoryFork⟩ := rfl
  have listed : (leafDirectoryVolume.listDirectory 5).eval collidingDirectory = .ok collidingEntries :=
    eq_ok_of_toOption (by decide +kernel)
  have gathered : (InodeFork.scanDirectory ⟨leafDirectoryVolume,5,leafDirectoryFork⟩).eval collidingDirectory =
      .ok collidingScan := eq_ok_of_toOption (by decide +kernel)
  obtain ⟨scan,scanned,_,_,agree⟩ := (lookup_agrees_with_listing known listed).2 (by decide)
  obtain rfl : collidingScan = scan := by rw [gathered] at scanned; exact Except.ok.inj scanned
  have indexed : collidingScan.Indexed := ⟨by decide,by decide⟩
  have answers := agree (by decide) (by decide) indexed
  refine ⟨known,listed,?_,?_⟩
  · intro entry member
    exact (answers entry.name).1 entry member rfl
  · exact (answers _).2 (by decide)

section Volume

variable {volume : Volume} {opened : InodeFork} {device : Device} {inode : UInt64} {entries : List DirectoryEntry}

-- What lookup returns bears the name and is listed, or else it came from a slot astray.
theorem lookup_listed_or_astray {name : Name} {entry : DirectoryEntry}
    (known : volume.openFork inode .data = .ok opened)
    (listed : (volume.listDirectory inode).eval device = .ok entries)
    (found : (volume.lookup inode name).eval device = .ok (some entry)) :
    entry.name = name ∧
      (entry ∈ entries ∨ opened.fork.layout ≠ .shortform ∧
        ∃ scan, opened.scanDirectory.eval device = .ok scan ∧
          ∃ slot ∈ InodeFork.slotsOf scan.leaves (nameHash name), opened.StraySlot device scan.data slot entry) := by
  have opens : volume.listDirectory inode = opened.listDirectory := by rw [Volume.listDirectory,known]; rfl
  have asks : volume.lookup inode name = opened.lookup name := by rw [Volume.lookup,known]; rfl
  rw [opens] at listed
  rw [asks] at found
  have searched : ∀ rows : List DirectoryEntry,
      (Except.ok (rows.find? fun entry => entry.name = name) : Except VolumeError _) = .ok (some entry) →
        entry.name = name ∧ entry ∈ rows := by
    intro rows same
    have hit : rows.find? (fun entry => entry.name = name) = some entry := by simpa using same
    exact ⟨by simpa using List.find?_some hit,List.mem_of_find?_eq_some hit⟩
  by_cases layout : opened.fork.layout = .shortform
  · rw [InodeFork.lookup_shortform layout listed] at found
    obtain ⟨named,member⟩ := searched _ found
    exact ⟨named,.inl member⟩
  · obtain ⟨scan,scanned,rfl⟩ := InodeFork.listDirectory_scanned layout listed
    rw [InodeFork.lookup_eval layout scanned] at found
    split at found
    · obtain ⟨named,member⟩ := searched _ found
      exact ⟨named,.inl member⟩
    · obtain ⟨named,slot,among,led⟩ := InodeFork.probe_found found
      rcases InodeFork.candidate_found (InodeFork.scanDirectory_of scanned) led with placed | astray
      · exact ⟨named,.inl (List.mem_map.mpr ⟨_,placed,rfl⟩)⟩
      · exact ⟨named,.inr ⟨layout,scan,scanned,slot,among,astray⟩⟩

end Volume

-- One entry, unused space, the sentinel, and in the tail of the block three slots that nobody reads.
-- The leaf's slots lead into the entry, into the unused space, behind the sentinel, and into the tail.
def strayDirectory : Device :=
  leafDirectory [⟨0x61,3⟩,⟨0x62,7⟩,⟨0x63,11⟩,⟨0x64,60⟩]
    [(0,[0x58,0x44,0x32,0x42]),
      (16,[0,0,0,0,0,0,0,11,21,0x6E,0x6E,0x6E,0x6E,0x6E,0x6E,0x6E,1,0x61,0x6E,0x6E,0x6E,0x6E,0x6E,0x6E,0x6E,
        0x6E,0x6E,0x6E,0x6E,0x6E,0,16]),
      (48,[0xFF,0xFF,0,24,0,0,0,0,0,0,0,0,0,0,0,12,1,0x62]),
      (88,[0,0,0,0,0,0,0,13,1,0x63]),
      (480,[0,0,0,0,0,0,0,14,1,0x64]),
      (504,[0,0,0,3])]

def strayEntry : DirectoryEntry where
  name := [0x6E,0x6E,0x6E,0x6E,0x6E,0x6E,0x6E,1,0x61,0x6E,0x6E,0x6E,0x6E,0x6E,0x6E,0x6E,0x6E,0x6E,0x6E,0x6E,0x6E]
  inode := 11
  tag := 16
  length := 32
  fileType := none

def ghostEntries : List DirectoryEntry :=
  [⟨[0x61],0x156E6E6E6E6E6E6E,0x6E6E,16,none⟩,⟨[0x62],12,0,16,none⟩,⟨[0x63],13,0,16,none⟩,⟨[0x64],14,0,16,none⟩]

theorem listDirectory_stray : (leafDirectoryVolume.listDirectory 5).eval strayDirectory = .ok [strayEntry] :=
  eq_ok_of_toOption (by decide +kernel)

-- The one named b is read from inside the unused space.
theorem lookup_listed_or_astray_unused :
    let opened : InodeFork := ⟨leafDirectoryVolume,5,leafDirectoryFork⟩
    let entry : DirectoryEntry := ⟨[0x62],12,0,16,none⟩
    leafDirectoryVolume.openFork 5 .data = .ok opened ∧
      (leafDirectoryVolume.listDirectory 5).eval strayDirectory = .ok [strayEntry] ∧
      (leafDirectoryVolume.lookup 5 [0x62]).eval strayDirectory = .ok (some entry) ∧
      ∃ scan, opened.scanDirectory.eval strayDirectory = .ok scan ∧
        ∃ slot ∈ InodeFork.slotsOf scan.leaves (nameHash [0x62]), opened.StraySlot strayDirectory scan.data slot entry := by
  intro opened entry
  have known : leafDirectoryVolume.openFork 5 .data = .ok opened := rfl
  have found : (leafDirectoryVolume.lookup 5 [0x62]).eval strayDirectory = .ok (some entry) :=
    eq_ok_of_toOption (by decide +kernel)
  refine ⟨known,listDirectory_stray,found,?_⟩
  rcases (lookup_listed_or_astray known listDirectory_stray found).2 with member | ⟨_,astray⟩
  · exact absurd member (by decide)
  · exact astray

-- Lookup finds a, b, c and d, of which listing shows none.
theorem lookup_finds_unlisted :
    (leafDirectoryVolume.listDirectory 5).eval strayDirectory = .ok [strayEntry] ∧
      ∀ entry ∈ ghostEntries,
        (leafDirectoryVolume.lookup 5 entry.name).eval strayDirectory = .ok (some entry) ∧ entry ∉ [strayEntry] := by
  refine ⟨listDirectory_stray,?_⟩
  have found : ∀ entry ∈ ghostEntries,
      ((leafDirectoryVolume.lookup 5 entry.name).eval strayDirectory).toOption = some (some entry) := by
    decide +kernel
  intro entry member
  refine ⟨eq_ok_of_toOption (found entry member),?_⟩
  revert entry
  decide

end XfsReader
