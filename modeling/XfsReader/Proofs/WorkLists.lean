import XfsReader.Proofs.AttributePreorder
import XfsReader.Proofs.BlockCertificates

-- The loops over pending blocks, turn by turn. Whatever the device holds, each turn either ends the
-- loop or takes one block that was not taken before, and puts on the stack only what stands below it.
-- The stack may grow; what falls with every turn is its weight.
namespace XfsReader

structure WorkList (Key Rank Found : Type) where
  visited : List Key
  found : List Found
  pending : List (Key × Rank)

-- Where a pending block is, what it is read as, what it adds to the work, and the error for taking it a
-- second time.
structure BlockLoop (Key Rank Found : Type) where
  role : BlockRole
  length : Nat
  place : Key → Except VolumeError Nat
  examine : Rank → Nat → Bytes → Except VolumeError (List Found × List (Key × Rank))
  twice : Key → VolumeError

namespace BlockLoop

variable {Key Rank Found : Type} [DecidableEq Key]

-- One turn of the loop, which is the last one where nothing is pending.
def turn (loop : BlockLoop Key Rank Found) (work : WorkList Key Rank Found) :
    Traversal (Option (WorkList Key Rank Found)) :=
  match work.pending with
  | [] => return none
  | (key,rank) :: rest =>
    if key ∈ work.visited then .fail (loop.twice key)
    else do
      let offset ← .ofExcept (loop.place key)
      let block ← .request (some loop.role) offset loop.length
      let (found,children) ← .ofExcept (loop.examine rank offset block)
      return some ⟨key :: work.visited,work.found ++ found,children ++ rest⟩

-- So many turns go by until nothing is pending, or until one fails.
inductive Ends (loop : BlockLoop Key Rank Found) (device : Device) :
    Nat → WorkList Key Rank Found → Except VolumeError (WorkList Key Rank Found) → Prop
  | emptied {work} (ran : (loop.turn work).eval device = .ok none) : Ends loop device 0 work (.ok work)
  | failed {work error} (ran : (loop.turn work).eval device = .error error) : Ends loop device 0 work (.error error)
  | turned {turns work next result} (ran : (loop.turn work).eval device = .ok (some next))
      (later : Ends loop device turns next result) : Ends loop device (turns + 1) work result

variable {loop : BlockLoop Key Rank Found} {device : Device} {turns : Nat} {work next last : WorkList Key Rank Found}

theorem turn_none (ran : (loop.turn work).eval device = .ok none) : work.pending = [] := by
  unfold turn at ran
  split at ran
  · assumption
  · split at ran
    · cases ran
    · obtain ⟨offset,_,ran⟩ := Traversal.eval_bind_eq_ok.mp ran
      obtain ⟨block,_,ran⟩ := Traversal.eval_bind_eq_ok.mp ran
      obtain ⟨found,_,returned⟩ := Traversal.eval_bind_eq_ok.mp ran
      cases returned

theorem turn_some (ran : (loop.turn work).eval device = .ok (some next)) :
    ∃ key rank rest offset block found children, work.pending = (key,rank) :: rest ∧ key ∉ work.visited ∧
      loop.place key = .ok offset ∧ device.read offset loop.length = .ok block ∧
      loop.examine rank offset block = .ok (found,children) ∧
      next = ⟨key :: work.visited,work.found ++ found,children ++ rest⟩ := by
  unfold turn at ran
  split at ran
  · cases ran
  · rename_i key rank rest pending
    split at ran
    · cases ran
    · rename_i new
      obtain ⟨offset,placed,ran⟩ := Traversal.eval_bind_eq_ok.mp ran
      obtain ⟨block,read,ran⟩ := Traversal.eval_bind_eq_ok.mp ran
      obtain ⟨⟨found,children⟩,examined,returned⟩ := Traversal.eval_bind_eq_ok.mp ran
      rw [Traversal.eval_ofExcept] at placed examined
      rw [Traversal.eval_request] at read
      cases returned
      exact ⟨key,rank,rest,offset,block,found,children,pending,new,placed,read,examined,rfl⟩

-- The visited blocks of a loop that ends are as many as its turns, and none is among them twice.
theorem Ends.visited {result : Except VolumeError (WorkList Key Rank Found)}
    (ends : loop.Ends device turns work result) (ended : result = .ok last) :
    last.pending = [] ∧ last.visited.length = work.visited.length + turns ∧
      (work.visited.Nodup → last.visited.Nodup) := by
  induction ends with
  | emptied ran =>
    cases ended
    exact ⟨turn_none ran,rfl,id⟩
  | failed ran => cases ended
  | turned ran later ih =>
    obtain ⟨_,_,_,_,_,_,_,_,new,_,_,_,rfl⟩ := turn_some ran
    obtain ⟨empty,long,distinct⟩ := ih ended
    refine ⟨empty,?_,fun nodup => distinct (List.nodup_cons.mpr ⟨new,nodup⟩)⟩
    rw [long,List.length_cons]
    omega

-- A traversal that takes the turns of a loop one after another.
def Unrolls (loop : BlockLoop Key Rank Found) (run : WorkList Key Rank Found → Traversal (List Found × List Key)) : Prop :=
  ∀ work, run work = loop.turn work >>= fun next =>
    match next with
    | none => return (work.found,work.visited)
    | some next => run next

-- What a turn may do: it takes the uppermost block, which is a new one, and puts in its place no more
-- than fits a block, all of it standing below the block and weighing less.
inductive Takes (below : Rank → Rank → Prop) (room : Nat) (weight : List (Key × Rank) → Nat) :
    WorkList Key Rank Found → WorkList Key Rank Found → Prop
  | block {key rank rest visited found more children} (new : key ∉ visited)
      (lower : ∀ child ∈ children, below child.2 rank) (fits : children.length ≤ room)
      (falls : weight (children ++ rest) < weight ((key,rank) :: rest)) :
      Takes below room weight ⟨visited,found,(key,rank) :: rest⟩ ⟨key :: visited,found ++ more,children ++ rest⟩

-- The loop ends, after no more turns than the stack weighs, and the traversal ends as it does.
def Halts (loop : BlockLoop Key Rank Found) (device : Device) (weight : List (Key × Rank) → Nat)
    (run : WorkList Key Rank Found → Traversal (List Found × List Key)) (work : WorkList Key Rank Found) : Prop :=
  ∃ turns result, loop.Ends device turns work result ∧ turns ≤ weight work.pending ∧
    (run work).eval device = result.map fun last => (last.found,last.visited)

-- What is to be shown of a loop, whatever the device holds and whatever work it starts with.
structure Orderly (loop : BlockLoop Key Rank Found) (device : Device) (below : Rank → Rank → Prop) (room : Nat)
    (weight : List (Key × Rank) → Nat) (run : WorkList Key Rank Found → Traversal (List Found × List Key)) : Prop where
  unrolls : loop.Unrolls run
  takes : ∀ work next, (loop.turn work).eval device = .ok (some next) → Takes below room weight work next
  halts : ∀ work, loop.Halts device weight run work

variable {run : WorkList Key Rank Found → Traversal (List Found × List Key)} {weight : List (Key × Rank) → Nat}
  {below : Rank → Rank → Prop} {room : Nat}

-- The induction is on the weight of the stack: its length may grow from one turn to the next.
theorem Unrolls.halts (unrolls : loop.Unrolls run)
    (takes : ∀ work next, (loop.turn work).eval device = .ok (some next) → Takes below room weight work next)
    (work : WorkList Key Rank Found) : loop.Halts device weight run work := by
  induction bound : weight work.pending using Nat.strong_induction_on generalizing work with
  | _ total ih =>
    unfold Halts
    rw [unrolls,Traversal.eval_bind]
    cases turned : (loop.turn work).eval device with
    | error error => exact ⟨0,.error error,.failed turned,Nat.zero_le _,rfl⟩
    | ok next =>
      cases next with
      | none => exact ⟨0,.ok work,.emptied turned,Nat.zero_le _,rfl⟩
      | some next =>
        have lighter : weight next.pending < weight work.pending := by
          cases takes work next turned with
          | block new lower fits falls => exact falls
        obtain ⟨turns,result,ends,few,ran⟩ := ih _ (bound ▸ lighter) next rfl
        exact ⟨turns + 1,result,.turned turned ends,by omega,ran⟩

-- Order in what single blocks add to the work is order in the whole loop.
theorem Unrolls.orderly (unrolls : loop.Unrolls run)
    (each : ∀ rank offset block found children, block.size = loop.length →
      loop.examine rank offset block = .ok (found,children) →
      (∀ child ∈ children, below child.2 rank) ∧ children.length ≤ room ∧
        ∀ key rest, weight (children ++ rest) < weight ((key,rank) :: rest)) :
    loop.Orderly device below room weight run := by
  have takes : ∀ work next, (loop.turn work).eval device = .ok (some next) → Takes below room weight work next := by
    rintro ⟨visited,collected,pending⟩ next ran
    obtain ⟨key,rank,rest,offset,block,found,children,rfl,new,_,read,examined,rfl⟩ := turn_some ran
    obtain ⟨_,_,rfl⟩ := Device.read_eq_ok.mp read
    obtain ⟨lower,fits,falls⟩ := each rank offset _ found children (Device.size_region _ _ _) examined
    exact .block new lower fits (falls key rest)
  exact ⟨unrolls,takes,unrolls.halts takes⟩

-- A traversal that ends well has taken as many turns as it has visited blocks, each of them once.
theorem Orderly.ended {visited : List Key} {found : List Found} (orderly : loop.Orderly device below room weight run)
    {pending : List (Key × Rank)} (ran : (run ⟨[],[],pending⟩).eval device = .ok (found,visited)) :
    loop.Ends device visited.length ⟨[],[],pending⟩ (.ok ⟨visited,found,[]⟩) ∧ visited.Nodup := by
  obtain ⟨turns,result,ends,_,same⟩ := orderly.halts ⟨[],[],pending⟩
  rw [ran] at same
  cases result with
  | error error => cases same
  | ok last =>
    obtain ⟨seen,collected,left⟩ := last
    cases same
    obtain ⟨rfl,long,distinct⟩ := ends.visited rfl
    have counted : seen.length = turns := by simpa using long
    rw [counted]
    exact ⟨ends,distinct List.nodup_nil⟩

end BlockLoop

-- What a block adds to the work: what it holds, or its children one level lower.
def MapContents.work {level : Nat} : MapContents level → List Extent × List (UInt64 × Nat)
  | .extents found => (found,[])
  | .children pointers _ _ => ([],pointers.map fun child => (child,level - 1))

def AttrContents.work {expected : Option Nat} : AttrContents expected → List DirectoryEntry × List (Nat × Option Nat)
  | .entries found => (found,[])
  | .children blocks level _ _ => ([],blocks.map fun child => (child.toNat,some level))

namespace InodeFork
open Traversal BlockLoop

variable {opened : InodeFork} {pair : MagicPair} {device : Device}

def mapLoop (opened : InodeFork) (pair : MagicPair) : BlockLoop UInt64 Nat Extent where
  role := .mapBlock
  length := opened.blockSize.bytes
  place pointer := located opened.position (opened.ag.byteOffset pointer)
  examine level offset block := (opened.examineMapBlock pair level offset block).map MapContents.work
  twice pointer := .corruption opened.position (.mapBlockTwice pointer)

def attrLoop (opened : InodeFork) (extents : List Extent) : BlockLoop Nat (Option Nat) DirectoryEntry where
  role := .attrBlock
  length := opened.blockSize.bytes
  place block := opened.attrBlockOffset extents block
  examine expected offset bytes := (opened.examineAttrBlock expected offset bytes).map AttrContents.work
  twice block := .corruption opened.position (.attrBlockTwice block)

theorem visitPending_unrolls (opened : InodeFork) (pair : MagicPair) :
    (opened.mapLoop pair).Unrolls fun work => opened.visitPending pair work.visited work.found work.pending := by
  rintro ⟨visited,extents,pending⟩
  dsimp only
  cases pending with
  | nil => rw [visitPending]; rfl
  | cons item rest =>
    obtain ⟨pointer,level⟩ := item
    rw [visitPending,turn]
    dsimp only [mapLoop]
    by_cases member : pointer ∈ visited
    · rw [if_pos member,if_pos member]
      rfl
    · rw [if_neg member,if_neg member]
      cases translated : opened.ag.byteOffset pointer with
      | error error => rfl
      | ok offset =>
        refine congrArg (Traversal.read _) (funext fun block => ?_)
        change _ = ((ofExcept ((opened.examineMapBlock pair level offset block).map MapContents.work)).bind _).bind _
        cases opened.examineMapBlock pair level offset block with
        | error error => rfl
        | ok contents =>
          cases contents with
          | extents found => rfl
          | children pointers few interior =>
            change _ = opened.visitPending pair (pointer :: visited) (extents ++ []) (_ ++ rest)
            rw [List.append_nil,MapContents.work]
            dsimp only
            rw [pushReversed_eq]

theorem visitAttributes_unrolls (opened : InodeFork) (extents : List Extent) :
    (opened.attrLoop extents).Unrolls fun work =>
      opened.visitAttributes extents work.visited work.found work.pending := by
  rintro ⟨visited,entries,pending⟩
  dsimp only
  cases pending with
  | nil => rw [visitAttributes]; rfl
  | cons item rest =>
    obtain ⟨block,expected⟩ := item
    rw [visitAttributes,turn]
    dsimp only [attrLoop]
    by_cases member : block ∈ visited
    · rw [if_pos member,if_pos member]
      rfl
    · rw [if_neg member,if_neg member]
      cases placed : opened.attrBlockOffset extents block with
      | error error => rfl
      | ok offset =>
        refine congrArg (Traversal.read _) (funext fun bytes => ?_)
        change _ = ((ofExcept ((opened.examineAttrBlock expected offset bytes).map AttrContents.work)).bind _).bind _
        cases opened.examineAttrBlock expected offset bytes with
        | error error => rfl
        | ok contents =>
          cases contents with
          | entries found => rfl
          | children blocks level few below =>
            change _ = opened.visitAttributes extents (block :: visited) (entries ++ []) (_ ++ rest)
            rw [List.append_nil,AttrContents.work]
            dsimp only
            rw [pushReversed_eq]

-- How many children a block of the map can lead to, and how many a node of the attributes can.
def mapRoom (version : FormatVersion) (size : Nat) : Nat := (size - MapHeader.sizeOf version) / 16

def attrRoom (version : FormatVersion) (size : Nat) : Nat := (size - DaNode.entriesOffset version) / 8

theorem childPointers_room {header : MapHeader} {block : Bytes} {pointers : List UInt64}
    (read : header.childPointers block = .ok pointers) : pointers.length ≤ mapRoom header.version block.size := by
  rw [MapHeader.length_childPointers read]
  unfold MapHeader.childPointers at read
  split at read
  · cases read
  · split at read
    · cases read
    · rename_i fits
      unfold MapHeader.checkCapacity at fits
      split at fits
      · cases fits
      · exact Nat.le_of_not_lt ‹_›

theorem entries_room {version : FormatVersion} {block : Bytes} {node : DaNode}
    (decoded : (DaNode.decode version).run block = .ok node) : node.entries.length ≤ attrRoom version block.size := by
  obtain ⟨header,_,decoded⟩ := Decoder.run_bind_eq_ok.mp decoded
  obtain ⟨count,_,decoded⟩ := Decoder.run_bind_eq_ok.mp decoded
  obtain ⟨level,_,decoded⟩ := Decoder.run_bind_eq_ok.mp decoded
  obtain ⟨entries,listed,returned⟩ := Decoder.run_bind_eq_ok.mp decoded
  cases returned
  have long : entries.length = count.toNat := (Decoder.table_yields _ _ _ _).run listed
  have wide : ∀ place entry, (DaNode.decodeEntry place).run block = .ok entry → place + 8 ≤ block.size := by
    intro place entry read
    obtain ⟨hash,_,read⟩ := Decoder.run_bind_eq_ok.mp read
    obtain ⟨before,last,_⟩ := Decoder.run_bind_eq_ok.mp read
    exact Decoder.be32_inside last
  rcases Nat.eq_zero_or_pos count.toNat with none | filled
  · rw [long,none]
    exact Nat.zero_le _
  · have inside := Decoder.table_inside listed wide filled
    rw [long]
    exact (Nat.le_div_iff_mul_le (by decide)).mpr (by omega)

-- Children of a block of attributes stand one level lower. The root may be at any level, and counts as
-- higher than all of them.
def StandsBelow (child parent : Option Nat) : Prop :=
  ∃ level, child = some level ∧ meets parent (level + 1) ∧ PendingAttrs.rank child < PendingAttrs.rank parent

theorem examineMapBlock_work {level offset : Nat} {block : Bytes} {found : List Extent}
    {children : List (UInt64 × Nat)} (whole : block.size = opened.blockSize.bytes)
    (examined : (opened.examineMapBlock pair level offset block).map MapContents.work = .ok (found,children)) :
    (∀ child ∈ children, child.2 + 1 = level) ∧ children.length ≤ mapRoom opened.version opened.blockSize.bytes ∧
      ∀ pointer rest, PendingBlocks.weight (children ++ rest) < PendingBlocks.weight ((pointer,level) :: rest) := by
  cases held : opened.examineMapBlock pair level offset block with
  | error error => rw [held] at examined; cases examined
  | ok contents =>
    rw [held] at examined
    cases contents with
    | extents found =>
      cases examined
      exact ⟨nofun,Nat.zero_le _,fun pointer rest => PendingBlocks.weight_rest (pointer,level) rest⟩
    | children pointers few interior =>
      cases examined
      obtain ⟨header,_,version,_,_,contained⟩ := examineMapBlock_ok held
      refine ⟨?_,?_,?_⟩
      · intro child member
        obtain ⟨pointer,_,rfl⟩ := List.mem_map.mp member
        exact Nat.sub_add_cancel interior
      · rw [List.length_map,← whole,← version]
        exact childPointers_room (mapContents_pointers contained)
      · intro pointer rest
        rw [← pushReversed_eq]
        exact PendingBlocks.weight_children pointer rest few interior

theorem examineAttrBlock_work {expected : Option Nat} {offset : Nat} {block : Bytes} {found : List DirectoryEntry}
    {children : List (Nat × Option Nat)} (whole : block.size = opened.blockSize.bytes)
    (examined : (opened.examineAttrBlock expected offset block).map AttrContents.work = .ok (found,children)) :
    (∀ child ∈ children, StandsBelow child.2 expected) ∧ children.length ≤ attrRoom opened.version opened.blockSize.bytes ∧
      ∀ key rest, PendingAttrs.weight (children ++ rest) < PendingAttrs.weight ((key,expected) :: rest) := by
  cases held : opened.examineAttrBlock expected offset block with
  | error error => rw [held] at examined; cases examined
  | ok contents =>
    rw [held] at examined
    cases contents with
    | entries found =>
      cases examined
      exact ⟨nofun,Nat.zero_le _,fun key rest => PendingAttrs.weight_rest (key,expected) rest⟩
    | children blocks level few below =>
      cases examined
      obtain ⟨met,node,decoded,listed⟩ := examineAttrBlock_children held
      refine ⟨?_,?_,?_⟩
      · intro child member
        obtain ⟨block,_,rfl⟩ := List.mem_map.mp member
        exact ⟨level,rfl,met,below⟩
      · rw [List.length_map,listed,List.length_map,← whole]
        exact entries_room decoded
      · intro key rest
        rw [← pushReversed_eq]
        exact PendingAttrs.weight_children key rest few below

theorem mapLoop_orderly (opened : InodeFork) (pair : MagicPair) (device : Device) :
    (opened.mapLoop pair).Orderly device (fun child level => child + 1 = level)
      (mapRoom opened.version opened.blockSize.bytes) PendingBlocks.weight
      fun work => opened.visitPending pair work.visited work.found work.pending :=
  (visitPending_unrolls opened pair).orderly fun _ _ _ _ _ => examineMapBlock_work

theorem attrLoop_orderly (opened : InodeFork) (extents : List Extent) (device : Device) :
    (opened.attrLoop extents).Orderly device StandsBelow (attrRoom opened.version opened.blockSize.bytes)
      PendingAttrs.weight fun work => opened.visitAttributes extents work.visited work.found work.pending :=
  (visitAttributes_unrolls opened extents).orderly fun _ _ _ _ _ => examineAttrBlock_work

-- A map that a walk has found, and the turns of its loop, which starts with the children of the root.
-- Without a tree below the root there is no loop.
inductive MapTurns (opened : InodeFork) (pair : MagicPair) (device : Device) (map : ExtentMap) : Prop
  | flat (mode : map.mode = .inline ∨ map.mode = .direct) (none : map.blocksVisited = 0)
  | tree {literal : Bytes} {root : MapHeader} {pointers visited : List UInt64}
      (read : device.read opened.position opened.fork.size.toNat = .ok literal)
      (decoded : (MapHeader.decode pair).run literal = .ok root)
      (led : root.childPointers literal = .ok pointers)
      (fits : pointers.length ≤ mapRoom opened.version opened.fork.size.toNat)
      (interior : 0 < root.level.toNat) (mode : map.mode = .tree root.level)
      (ends : (opened.mapLoop pair).Ends device map.blocksVisited
        ⟨[],[],pointers.map fun child => (child,root.level.toNat - 1)⟩ (.ok ⟨visited,map.extents,[]⟩))
      (distinct : visited.Nodup) (counted : visited.length = map.blocksVisited)

theorem walkTree_turns {literal : Bytes} {map : ExtentMap}
    (read : device.read opened.position opened.fork.size.toNat = .ok literal)
    (ran : (opened.walkTree pair literal).eval device = .ok map) : opened.MapTurns pair device map := by
  unfold walkTree at ran
  obtain ⟨root,decoded,same⟩ := ofExcept_bind_ok ran
  rw [same] at ran
  obtain ⟨_,agreed,same⟩ := ofExcept_bind_ok ran
  rw [same] at ran
  split at ran
  · cases ran
  · obtain ⟨contents,contained,same⟩ := ofExcept_bind_ok ran
    rw [same] at ran
    cases contents with
    | extents found =>
      cases ran
      exact .flat (.inr rfl) rfl
    | children pointers few interior =>
      obtain ⟨⟨extents,visited⟩,looped,returned⟩ := eval_bind_eq_ok.mp ran
      rw [pushReversed_eq,List.append_nil] at looped
      cases returned
      obtain ⟨ends,distinct⟩ := (mapLoop_orderly opened pair device).ended looped
      have led := mapContents_pointers contained
      have fits := childPointers_room led
      have whole : literal.size = opened.fork.size.toNat := by
        obtain ⟨_,_,rfl⟩ := Device.read_eq_ok.mp read
        exact Device.size_region _ _ _
      rw [checkMapVersion_eq_ok.mp agreed,whole] at fits
      exact .tree read (located_eq_ok.mp decoded) led fits interior rfl ends distinct rfl

theorem walk_turns {tree : BtreeKind} {map : ExtentMap} (ran : (opened.walk tree).eval device = .ok map) :
    opened.MapTurns (opened.magics tree) device map := by
  obtain ⟨literal,read,ran⟩ := eval_bind_eq_ok.mp ran
  obtain ⟨found,mapped,ran⟩ := eval_bind_eq_ok.mp ran
  obtain ⟨_,_,returned⟩ := eval_bind_eq_ok.mp ran
  cases returned
  rw [readLiteral,eval_request] at read
  unfold readMap at mapped
  split at mapped
  · cases mapped
  · obtain ⟨extents,_,returned⟩ := eval_bind_eq_ok.mp mapped
    cases returned
    exact .flat (.inl rfl) rfl
  · exact walkTree_turns read mapped

-- The same of a list of attributes. Without extents there is no block to start with.
inductive AttrTurns (opened : InodeFork) (device : Device) (entries : List DirectoryEntry) : Prop
  | unmapped {map : ExtentMap} (walked : (opened.walk .directory).eval device = .ok map) (none : map.extents = [])
      (empty : entries = [])
  | tree {map : ExtentMap} {visited : List Nat} (walked : (opened.walk .directory).eval device = .ok map)
      (ends : (opened.attrLoop map.extents).Ends device visited.length ⟨[],[],[(0,none)]⟩
        (.ok ⟨visited,entries,[]⟩))
      (distinct : visited.Nodup)

theorem listAttributes_turns {entries : List DirectoryEntry} (ran : opened.listAttributes.eval device = .ok entries) :
    opened.AttrTurns device entries := by
  have mapped : opened.fork.layout ≠ .shortform := by
    intro layout
    rw [opened.listAttributes_unmapped layout] at ran
    cases ran
  rw [opened.listAttributes_mapped mapped] at ran
  obtain ⟨map,walked,ran⟩ := eval_bind_eq_ok.mp ran
  split at ran
  · rename_i empty
    cases ran
    exact .unmapped walked (List.isEmpty_iff.mp empty) rfl
  · obtain ⟨⟨found,visited⟩,looped,returned⟩ := eval_bind_eq_ok.mp ran
    cases returned
    obtain ⟨ends,distinct⟩ := (attrLoop_orderly opened map.extents device).ended looped
    exact .tree walked ends distinct

end InodeFork

-- Neither loop runs for ever on any device: not through pointers that lead in circles, nor through
-- children that have several parents, nor through levels that are not what they should be.
theorem work_lists_end (opened : InodeFork) (device : Device) :
    (∀ pair, (opened.mapLoop pair).Orderly device (fun child level => child + 1 = level)
      (InodeFork.mapRoom opened.version opened.blockSize.bytes) PendingBlocks.weight
      fun work => opened.visitPending pair work.visited work.found work.pending) ∧
    (∀ extents, (opened.attrLoop extents).Orderly device InodeFork.StandsBelow
      (InodeFork.attrRoom opened.version opened.blockSize.bytes) PendingAttrs.weight
      fun work => opened.visitAttributes extents work.visited work.found work.pending) ∧
    (∀ tree map, (opened.walk tree).eval device = .ok map → opened.MapTurns (opened.magics tree) device map) ∧
    (∀ entries, opened.listAttributes.eval device = .ok entries → opened.AttrTurns device entries) :=
  ⟨fun pair => opened.mapLoop_orderly pair device,fun extents => opened.attrLoop_orderly extents device,
    fun _ _ => InodeFork.walk_turns,fun _ => InodeFork.listAttributes_turns⟩

end XfsReader
