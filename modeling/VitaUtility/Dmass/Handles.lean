import VitaUtility.Dmass.VopSpec

/-!
# The handle objects of an entry

Opening a file puts an object of its handle at the front of the list of the entry, closing takes the first
object of the handle out again. The first part has the objects in their heap blocks, linked by `next`, and shows
that the lists of the other modules are what these links spell out. The second part is about runs: `refer` counts
the objects, and an entry can be deleted exactly when every open has been closed.
-/

namespace VitaUtility.Dmass
open VfsState

variable {s s' : VfsState} {k : Answers} {r : Int} {a b e : Addr} {key : Int32} {f : FapsDmassFs}
  {x y : FapsDmassFsX}

/-! ### The objects in their blocks -/

/-- A `FapsDmassFsX` with its link. -/
structure CtlCell where
  next : Option Addr
  handlerIndex : Int32
  current : Option Addr

/-- The objects of one entry, its `pDmassFsX` and its `refer`. -/
structure CtlHeap where
  cells : Store CtlCell
  pDmassFsX : Option Addr
  refer : UInt32

namespace CtlHeap
variable {H : CtlHeap}

def next? (H : CtlHeap) (a : Addr) : Option (Option Addr) := (H.cells.lookup a).map (·.next)

/-- One round of the loops: does `pObject` have the key, and where does its `next` point? -/
def peekKey (H : CtlHeap) (key : Int32) (pObject : Addr) : Except Fault (Bool × Option Addr) :=
  match H.cells.lookup pObject with
  | none => .error .freed
  | some x => .ok (key = x.handlerIndex, x.next)

/-- `create_dmass_ctl_data`, with the new block `pObject`. -/
def create (H : CtlHeap) (pObject : Addr) (key : Int32) : CtlHeap where
  cells := H.cells.insert pObject ⟨H.pDmassFsX, key, none⟩
  pDmassFsX := some pObject
  refer := H.refer + 1

/-- `*ppObject = q`, where the link is in the object `pred`, or is `pDmassFsX`. -/
def setLink (H : CtlHeap) (pred q : Option Addr) : CtlHeap := { H with
  cells := relink (fun q x => { x with next := q }) H.cells pred q
  pDmassFsX := if pred = none then q else H.pDmassFsX }

/-- `delete_dmass_ctl_data` -/
def delete (H : CtlHeap) (key : Int32) : Except Fault (Int × CtlHeap) := do
  match ← findLink (H.peekKey key) .hang H.cells.keys.card none H.pDmassFsX with
  | none => return (-2, H)
  | some (pred, pObject) =>
    match H.next? pObject with
    | none => .error .freed
    | some q =>
      let H := H.setLink pred q
      return (0, { H with refer := H.refer - 1, cells := H.cells.erase pObject })

/-- `search_dmass_ctl_data` -/
def search (H : CtlHeap) (key : Int32) : Except Fault (Option Addr) := do
  match ← findLink (H.peekKey key) .hang H.cells.keys.card none H.pDmassFsX with
  | none => return none
  | some (_, pObject) => return some pObject

/-- The cell `a` holds the object `x`. -/
def HoldsObject (H : CtlHeap) (x : FapsDmassFsX) : Prop :=
  ∃ c, H.cells.lookup x.addr = some c ∧ c.handlerIndex = x.handlerIndex ∧ c.current = x.current

/-- The links spell out the list `f.pDmassFsX`. -/
structure Holds (H : CtlHeap) (f : FapsDmassFs) : Prop where
  chain : Chain H.next? H.pDmassFsX (f.pDmassFsX.map (·.addr))
  objects : ∀ x ∈ f.pDmassFsX, H.HoldsObject x
  refer : H.refer = f.refer

def hasKey (H : CtlHeap) (key : Int32) (a : Addr) : Bool := (H.cells.lookup a).any fun x => key = x.handlerIndex

theorem HoldsObject.hasKey (h : H.HoldsObject x) : H.hasKey key x.addr = decide (key = x.handlerIndex) := by
  obtain ⟨c, hc, hkey, -⟩ := h
  rw [CtlHeap.hasKey, hc, Option.any_some, hkey]

/-- The loops stop at the object that the list functions take. -/
theorem Holds.findLink (h : H.Holds f) (key : Int32) :
    (findLink (H.peekKey key) .hang H.cells.keys.card none H.pDmassFsX = .ok none ∧
      unlinkCtlData key f.pDmassFsX = none ∧ searchDmassCtlData key f.pDmassFsX = none) ∨
    ∃ l₁ x l₂, f.pDmassFsX = l₁ ++ x :: l₂ ∧ unlinkCtlData key f.pDmassFsX = some (x, l₁ ++ l₂) ∧
      searchDmassCtlData key f.pDmassFsX = some x ∧
      findLink (H.peekKey key) .hang H.cells.keys.card none H.pDmassFsX =
        .ok (some ((l₁.map (·.addr)).getLast?, x.addr)) := by
  have hfind : VitaUtility.findLink (H.peekKey key) .hang H.cells.keys.card none H.pDmassFsX =
      .ok (linkOf (H.hasKey key) none (f.pDmassFsX.map (·.addr))) := by
    refine findLink_chain h.chain (fun a _ q hq => ?_) (Chain.length_le h.chain fun a ha => ?_)
    · obtain ⟨c, hc, rfl⟩ := Option.map_eq_some_iff.1 hq
      rw [peekKey, hasKey, hc, Option.any_some]
    · obtain ⟨x, hx, rfl⟩ := List.mem_map.1 ha
      obtain ⟨c, hc, -⟩ := h.objects x hx
      exact Finmap.mem_keys.2 (Finmap.mem_iff.2 ⟨c, hc⟩)
  rcases unlinkCtlData_eq key f.pDmassFsX with ⟨hu, hs⟩ | ⟨l₁, x, l₂, hl, hx, hl₁, hu, hs, -⟩
  · refine .inl ⟨?_, hu, hs⟩
    have hno : ¬ 0 < f.pDmassFsX.countP fun x => x.handlerIndex = key := by
      rw [← search_isSome_iff, hs]
      simp
    rw [hfind, linkOf_eq_none.2]
    intro a ha
    obtain ⟨x, hx, rfl⟩ := List.mem_map.1 ha
    rw [(h.objects x hx).hasKey, decide_eq_false_iff_not]
    rintro rfl
    exact hno (List.countP_pos_iff.2 ⟨x, hx, by simp⟩)
  · refine .inr ⟨l₁, x, l₂, hl, hu, hs, ?_⟩
    have hmem : ∀ y ∈ l₁ ++ x :: l₂, H.HoldsObject y := fun y hy => h.objects y (hl ▸ hy)
    rw [hfind, linkOf_eq_some.2]
    refine ⟨l₁.map (·.addr), l₂.map (·.addr), by rw [hl, List.map_append, List.map_cons], fun a ha => ?_, ?_, ?_⟩
    · obtain ⟨y, hy, rfl⟩ := List.mem_map.1 ha
      rw [(hmem y (List.mem_append_left _ hy)).hasKey, decide_eq_false_iff_not]
      exact (hl₁ y hy).symm
    · rw [(hmem x (by simp)).hasKey, decide_eq_true_iff]
      exact hx.symm
    · rw [Option.or_none]

theorem Holds.search (h : H.Holds f) (key : Int32) :
    H.search key = .ok ((searchDmassCtlData key f.pDmassFsX).map (·.addr)) := by
  unfold CtlHeap.search
  rcases h.findLink key with ⟨hfind, -, hs⟩ | ⟨l₁, x, l₂, -, -, hs, hfind⟩ <;> rw [hfind, hs] <;> rfl

theorem Holds.create (h : H.Holds f) (ha : a ∉ H.cells) (key : Int32) :
    (H.create a key).Holds { f with pDmassFsX := ⟨a, key, none⟩ :: f.pDmassFsX, refer := f.refer + 1 } := by
  have hlookup : ∀ b, (H.create a key).cells.lookup b =
      if b = a then some ⟨H.pDmassFsX, key, none⟩ else H.cells.lookup b := fun b => lookup_insert_ite _ _ _ _
  have hne : ∀ x ∈ f.pDmassFsX, x.addr ≠ a := by
    rintro x hx rfl
    obtain ⟨c, hc, -⟩ := h.objects x hx
    exact ha (Finmap.mem_iff.2 ⟨c, hc⟩)
  constructor
  · refine h.chain.push (fun hmem => ?_) ?_ fun b hb => ?_
    · obtain ⟨x, hx, hxa⟩ := List.mem_map.1 hmem
      exact hne x hx hxa
    · rw [next?, hlookup, if_pos rfl]
      rfl
    · rw [next?, hlookup, if_neg hb]
      rfl
  · intro x hx
    rcases List.mem_cons.1 hx with rfl | hx
    · exact ⟨_, (hlookup _).trans (if_pos rfl), rfl, rfl⟩
    · obtain ⟨c, hc, hcx⟩ := h.objects x hx
      exact ⟨c, ((hlookup _).trans (if_neg (hne x hx))).trans hc, hcx⟩
  · exact congrArg (· + 1) h.refer

/-- What `delete` answers, and the list it leaves. -/
theorem Holds.delete (h : H.Holds f) (key : Int32) :
    match unlinkCtlData key f.pDmassFsX with
    | none => H.delete key = .ok (-2, H)
    | some (_, rest) => ∃ H' : CtlHeap, H.delete key = .ok (0, H') ∧
        H'.Holds { f with pDmassFsX := rest, refer := f.refer - 1 } := by
  rcases h.findLink key with ⟨hfind, hu, -⟩ | ⟨l₁, x, l₂, hl, hu, -, hfind⟩ <;> rw [hu]
  · unfold CtlHeap.delete
    rw [hfind]
    rfl
  have hchain := h.chain
  rw [hl, List.map_append, List.map_cons] at hchain
  have hnd := hchain.nodup
  rw [List.nodup_middle, List.nodup_cons, ← List.map_append] at hnd
  obtain ⟨c, hc, -⟩ := h.objects x (by rw [hl]; simp)
  refine ⟨{ H.setLink (l₁.map (·.addr)).getLast? c.next with
    refer := H.refer - 1, cells := (H.setLink (l₁.map (·.addr)).getLast? c.next).cells.erase x.addr }, ?_, ?_, ?_, ?_⟩
  · unfold CtlHeap.delete
    rw [hfind, ok_bind]
    dsimp only
    rw [next?, hc]
    rfl
  · have hhead : (H.setLink (l₁.map (·.addr)).getLast? c.next).pDmassFsX =
        if l₁.map (·.addr) = [] then c.next else H.pDmassFsX := if_congr List.getLast?_eq_none_iff rfl rfl
    rw [hhead, List.map_append]
    exact chain_relink_erase (fun _ _ => rfl) hchain hc
  · intro y hy
    have hmem : y ∈ f.pDmassFsX := by
      rw [List.mem_append] at hy
      rw [hl, List.mem_append, List.mem_cons]
      exact hy.imp id .inr
    obtain ⟨d, hd, hkey, hcur⟩ := h.objects y hmem
    have hlookup : ((H.setLink (l₁.map (·.addr)).getLast? c.next).cells.erase x.addr).lookup y.addr =
        if (l₁.map (·.addr)).getLast? = some y.addr then some { d with next := c.next } else some d := by
      rw [lookup_erase_ite, if_neg fun he => hnd.1 (List.mem_map.2 ⟨y, hy, he⟩), setLink, lookup_relink, hd]
      rfl
    rw [HoldsObject, hlookup]
    split
    · exact ⟨_, rfl, hkey, hcur⟩
    · exact ⟨_, rfl, hkey, hcur⟩
  · exact congrArg (· - 1) h.refer

end CtlHeap

/-! ### Opens and closes -/

/-- What happens to the objects of an entry: `create_dmass_ctl_data(key)` returned `object`,
`delete_dmass_ctl_data(key)` returned `r`, or a listing set the cursor of the object of a key. -/
inductive CtlEvent where
  | create (key : Int32) (object : Option Addr)
  | delete (key : Int32) (r : Int)
  | move (key : Int32) (current : Option Addr)

/-- An event at the entry `e`; an entry has fewer than `2 ^ 32` objects. -/
def CtlStep (e : Addr) (s : VfsState) : CtlEvent → VfsState → Prop
  | .create key object, s' => (∃ f, s.entries.lookup e = some f ∧ f.pDmassFsX.length + 1 < 2 ^ 32) ∧
      ∃ k, createDmassCtlData k e key s = .ok (object, s')
  | .delete key r, s' => deleteDmassCtlData e key s = .ok (r, s')
  | .move key current, s' => s' = s.modEntry e fun f => { f with
      pDmassFsX := modCtlData key (fun x => { x with current := current }) f.pDmassFsX }

namespace CtlEvent

/-- An object of the key was created. -/
def opens (key : Int32) : CtlEvent → Bool
  | create key' object => key' = key ∧ object.isSome
  | _ => false

/-- An object of the key was deleted. -/
def closes (key : Int32) : CtlEvent → Bool
  | delete key' r => key' = key ∧ r = 0
  | _ => false

variable {key' : Int32} {object : Option Addr}

@[simp] theorem opens_create : (create key' object).opens key = (decide (key' = key) && object.isSome) := by
  simp [opens]
@[simp] theorem closes_create : (create key' object).closes key = false := rfl
@[simp] theorem opens_delete : (delete key' r).opens key = false := rfl
@[simp] theorem closes_delete : (delete key' r).closes key = (decide (key' = key) && decide (r = 0)) := by
  simp [closes]

end CtlEvent

/-- More objects of the key were created than deleted. -/
def Unmatched (ls : List CtlEvent) (key : Int32) : Prop :=
  ls.countP (·.closes key) < ls.countP (·.opens key)

instance (ls : List CtlEvent) (key : Int32) : Decidable (Unmatched ls key) := inferInstanceAs (Decidable (_ < _))

/-- The `i`-th event created the object `x.1` of the key `x.2`, and no later event got this block. -/
def CreatedAt (ls : List CtlEvent) (x : Addr × Int32) (i : Nat) : Prop :=
  ls[i]? = some (.create x.2 (some x.1)) ∧ ∀ j key, ls[j]? = some (.create key (some x.1)) → j ≤ i

/-- `x` is older than `y`. -/
def Older (ls : List CtlEvent) (x y : Addr × Int32) : Prop := ∃ i j, CreatedAt ls x i ∧ CreatedAt ls y j ∧ i < j

section
variable {ls : List CtlEvent} {l : CtlEvent} {i : Nat} {p q : Addr × Int32} {ids m₁ m₂ : List (Addr × Int32)}

theorem CreatedAt.lt_length (h : CreatedAt ls p i) : i < ls.length := (List.getElem?_eq_some_iff.1 h.1).1

/-- A later event that does not get the block changes nothing. -/
theorem CreatedAt.snoc (h : CreatedAt ls p i) (hl : ∀ key, l ≠ .create key (some p.1)) : CreatedAt (ls ++ [l]) p i := by
  refine ⟨(List.getElem?_append_left h.lt_length).trans h.1, fun j key hj => ?_⟩
  rcases lt_or_ge j ls.length with hlt | hge
  · rw [List.getElem?_append_left hlt] at hj
    exact h.2 j key hj
  · rw [List.getElem?_append_right hge, List.getElem?_singleton] at hj
    split at hj
    · exact absurd (Option.some.inj hj) (hl key)
    · cases hj

theorem createdAt_last (ls : List CtlEvent) (p : Addr × Int32) :
    CreatedAt (ls ++ [.create p.2 (some p.1)]) p ls.length := by
  refine ⟨List.getElem?_concat_length, fun j key hj => ?_⟩
  have := (List.getElem?_eq_some_iff.1 hj).1
  rw [List.length_append, List.length_singleton] at this
  omega

theorem Older.snoc (h : Older ls p q) (hp : ∀ key, l ≠ .create key (some p.1))
    (hq : ∀ key, l ≠ .create key (some q.1)) : Older (ls ++ [l]) p q := by
  obtain ⟨i, j, hi, hj, hij⟩ := h
  exact ⟨i, j, hi.snoc hp, hj.snoc hq, hij⟩

/-- The objects that are not deleted yet, newest first, after the events `ls`. -/
structure Unclosed (ls : List CtlEvent) (ids : List (Addr × Int32)) : Prop where
  nodup : (ids.map (·.1)).Nodup
  created : ∀ p ∈ ids, ∃ i, CreatedAt ls p i
  newest : ids.Pairwise fun p q => Older ls q p
  count : ∀ key, ids.countP (·.2 = key) + ls.countP (·.closes key) = ls.countP (·.opens key)

namespace Unclosed

theorem nil : Unclosed [] [] := ⟨List.nodup_nil, nofun, List.Pairwise.nil, fun _ => rfl⟩

/-- Some object of a key is left exactly when the key is unmatched. -/
theorem countP_pos (h : Unclosed ls ids) (key : Int32) : 0 < ids.countP (·.2 = key) ↔ Unmatched ls key := by
  have := h.count key
  unfold Unmatched
  omega

/-- What another event keeps of the objects `m`, which it does not create. -/
theorem sublist (h : Unclosed ls ids) {m : List (Addr × Int32)} (hm : m.Sublist ids)
    (hl : ∀ p ∈ m, ∀ key, l ≠ .create key (some p.1)) :
    (m.map (·.1)).Nodup ∧ (∀ p ∈ m, ∃ i, CreatedAt (ls ++ [l]) p i) ∧
      m.Pairwise fun p q => Older (ls ++ [l]) q p := by
  refine ⟨h.nodup.sublist (hm.map _), fun p hp => ?_, (h.newest.sublist hm).imp_of_mem fun hp hq hold => ?_⟩
  · obtain ⟨i, hi⟩ := h.created p (hm.subset hp)
    exact ⟨i, hi.snoc (hl p hp)⟩
  · exact hold.snoc (hl _ hq) (hl _ hp)

theorem create (h : Unclosed ls ids) (hp : p.1 ∉ ids.map (·.1)) :
    Unclosed (ls ++ [.create p.2 (some p.1)]) (p :: ids) := by
  have hl : ∀ q ∈ ids, ∀ key, CtlEvent.create p.2 (some p.1) ≠ .create key (some q.1) := by
    rintro q hq key he
    injection he with _ ha
    exact hp (List.mem_map.2 ⟨q, hq, (Option.some.inj ha).symm⟩)
  obtain ⟨hnd, hcr, hnew⟩ := h.sublist (List.Sublist.refl ids) hl
  have hlast := createdAt_last ls p
  refine ⟨List.nodup_cons.2 ⟨hp, hnd⟩, ?_, List.pairwise_cons.2 ⟨fun q hq => ?_, hnew⟩, fun key => ?_⟩
  · intro q hq
    rcases List.mem_cons.1 hq with rfl | hq
    · exact ⟨_, hlast⟩
    · exact hcr q hq
  · obtain ⟨i, hi⟩ := h.created q hq
    exact ⟨i, ls.length, hi.snoc (hl q hq), hlast, hi.lt_length⟩
  · have := h.count key
    by_cases hk : p.2 = key <;> simp [hk] <;> omega

/-- A delete takes out the newest object of its key. -/
theorem delete (h : Unclosed ls (m₁ ++ p :: m₂)) : Unclosed (ls ++ [.delete p.2 0]) (m₁ ++ m₂) := by
  have hsub : (m₁ ++ m₂).Sublist (m₁ ++ p :: m₂) := (List.Sublist.refl m₁).append (List.sublist_cons_self p m₂)
  obtain ⟨hnd, hcr, hnew⟩ := h.sublist (l := .delete p.2 0) hsub (by intro _ _ _ he; cases he)
  refine ⟨hnd, hcr, hnew, fun key => ?_⟩
  have := h.count key
  rw [List.countP_append, List.countP_cons] at this
  by_cases hk : p.2 = key <;> simp [CtlEvent.opens, CtlEvent.closes, hk] at this ⊢ <;> omega

/-- An event that neither creates nor deletes an object. -/
theorem keep (h : Unclosed ls ids) (ho : ∀ key, l.opens key = false) (hc : ∀ key, l.closes key = false) :
    Unclosed (ls ++ [l]) ids := by
  have hl : ∀ p ∈ ids, ∀ key, l ≠ .create key (some p.1) := by
    rintro p - key rfl
    have := ho key
    simp at this
  obtain ⟨hnd, hcr, hnew⟩ := h.sublist (List.Sublist.refl ids) hl
  refine ⟨hnd, hcr, hnew, fun key => ?_⟩
  have := h.count key
  simpa [ho, hc] using this

/-- The first object of a key is the newest one. -/
theorem older_first (h : Unclosed ls (m₁ ++ p :: m₂)) (hm₁ : ∀ q ∈ m₁, q.2 ≠ p.2) :
    ∀ q ∈ m₁ ++ m₂, q.2 = p.2 → Older ls q p := by
  intro q hq hkey
  rcases List.mem_append.1 hq with hq | hq
  · exact absurd hkey (hm₁ q hq)
  · exact (List.pairwise_cons.1 (List.pairwise_append.1 h.newest).2.1).1 q hq

end Unclosed

end

/-! ### The list and its counter -/

/-- The block and the key of each object. -/
def objectIds (f : FapsDmassFs) : List (Addr × Int32) := f.pDmassFsX.map fun x => (x.addr, x.handlerIndex)

/-- After the events `ls` the list of `e` holds what is not deleted yet, in live blocks, and `refer` counts it. -/
structure Tracked (s : VfsState) (e : Addr) (f : FapsDmassFs) (ls : List CtlEvent) : Prop where
  entry : s.entries.lookup e = some f
  refer : f.refer.toNat = f.pDmassFsX.length
  blocks : ∀ x ∈ f.pDmassFsX, x.addr ∈ s.bufs
  unclosed : Unclosed ls (objectIds f)

theorem map_modCtlData {β : Type} {φ : FapsDmassFsX → β} {g : FapsDmassFsX → FapsDmassFsX}
    (hg : ∀ x, φ (g x) = φ x) (l : List FapsDmassFsX) : (modCtlData key g l).map φ = l.map φ := by
  induction l with
  | nil => rfl
  | cons x l ih =>
    rw [modCtlData]
    split
    · rw [List.map_cons, hg, List.map_cons]
    · rw [List.map_cons, ih, List.map_cons]

namespace Tracked
variable {ls : List CtlEvent} {l : CtlEvent}

theorem countP_ids (f : FapsDmassFs) (key : Int32) :
    (objectIds f).countP (·.2 = key) = f.pDmassFsX.countP fun x => x.handlerIndex = key := List.countP_map ..

theorem search_iff (h : Tracked s e f ls) (key : Int32) :
    (searchDmassCtlData key f.pDmassFsX).isSome ↔ Unmatched ls key := by
  rw [search_isSome_iff, ← countP_ids, h.unclosed.countP_pos]

theorem create {object : Option Addr} (h : Tracked s e f ls) (hlen : f.pDmassFsX.length + 1 < 2 ^ 32)
    (hs : createDmassCtlData k e key s = .ok (object, s')) :
    ∃ f', Tracked s' e f' (ls ++ [.create key object]) := by
  rcases createDmassCtlData_ok hs with ⟨rfl, rfl⟩ | ⟨a, f', rfl, ha, hf, rfl⟩
  · exact ⟨f, h.entry, h.refer, h.blocks, h.unclosed.keep (by simp) (by simp)⟩
  obtain rfl := Option.some.inj (h.entry.symm.trans hf)
  have hbufs : a ∉ s.bufs := fun hb => ha (Finset.mem_union_right _ hb)
  refine ⟨{ f with pDmassFsX := ⟨a, key, none⟩ :: f.pDmassFsX, refer := f.refer + 1 }, ?_, ?_, ?_, ?_⟩
  · rw [lookup_modEntry, if_pos rfl, hf]
    rfl
  · have := h.refer
    rw [UInt32.toNat_add, List.length_cons, UInt32.toNat_one]
    omega
  · intro x hx
    rcases List.mem_cons.1 hx with rfl | hx
    · exact Finset.mem_insert_self ..
    · exact Finset.mem_insert_of_mem (h.blocks x hx)
  · refine h.unclosed.create (p := (a, key)) fun hmem => hbufs ?_
    rw [objectIds, List.map_map, List.mem_map] at hmem
    obtain ⟨x, hx, rfl⟩ := hmem
    exact h.blocks x hx

/-- A delete that returns 0 has taken the newest object of the key, and nothing else. -/
theorem delete_zero (h : Tracked s e f ls) (hs : deleteDmassCtlData e key s = .ok (0, s')) :
    ∃ l₁ x l₂, f.pDmassFsX = l₁ ++ x :: l₂ ∧ x.handlerIndex = key ∧
      (∀ y ∈ l₁ ++ l₂, y.handlerIndex = key → Older ls (y.addr, y.handlerIndex) (x.addr, x.handlerIndex)) ∧
      (∀ y ∈ l₁ ++ l₂, y.addr ∈ s'.bufs) ∧ x.addr ∉ s'.bufs ∧
      Tracked s' e { f with pDmassFsX := l₁ ++ l₂, refer := f.refer - 1 } (ls ++ [.delete key 0]) := by
  rcases deleteDmassCtlData_ok hs with ⟨hr, -⟩ | ⟨-, f', l₁, x, l₂, hf, hl, rfl, hl₁, rfl⟩
  · exact absurd hr (by decide)
  obtain rfl := Option.some.inj (h.entry.symm.trans hf)
  have hU := h.unclosed
  have hids : objectIds f = l₁.map (fun x => (x.addr, x.handlerIndex)) ++ (x.addr, x.handlerIndex) ::
      l₂.map fun x => (x.addr, x.handlerIndex) := by
    rw [objectIds, hl, List.map_append, List.map_cons]
  rw [hids] at hU
  have hnd := hU.nodup
  rw [List.map_append, List.map_cons, List.nodup_middle, List.nodup_cons, ← List.map_append, ← List.map_append,
    List.map_map] at hnd
  have hmem : ∀ y ∈ l₁ ++ l₂, y ∈ f.pDmassFsX := by
    intro y hy
    rw [hl]
    rw [List.mem_append] at hy
    rw [List.mem_append, List.mem_cons]
    exact hy.imp id .inr
  have hblocks : ∀ y ∈ l₁ ++ l₂, y.addr ∈ s.bufs.erase x.addr := fun y hy =>
    Finset.mem_erase.2 ⟨fun he => hnd.1 (List.mem_map.2 ⟨y, hy, he⟩), h.blocks y (hmem y hy)⟩
  refine ⟨l₁, x, l₂, hl, rfl, fun y hy hkey => ?_, hblocks, Finset.notMem_erase x.addr s.bufs, ?_, ?_, hblocks, ?_⟩
  · refine hU.older_first (fun q hq => ?_) _ ?_ hkey
    · obtain ⟨z, hz, rfl⟩ := List.mem_map.1 hq
      exact hl₁ z hz
    · rw [← List.map_append]
      exact List.mem_map.2 ⟨y, hy, rfl⟩
  · rw [dmassFree_entries, lookup_modEntry, if_pos rfl, hf]
    rfl
  · have hrefer := h.refer
    rw [hl, List.length_append, List.length_cons] at hrefer
    have := f.refer.toNat_lt
    rw [UInt32.toNat_sub_of_le _ _ (UInt32.le_iff_toNat_le.2 (by rw [UInt32.toNat_one]; omega)), UInt32.toNat_one,
      List.length_append]
    omega
  · rw [objectIds, List.map_append]
    exact hU.delete

/-- Setting a cursor changes neither the objects nor their order. -/
theorem move (h : Tracked s e f ls) (key : Int32) (current : Option Addr) :
    Tracked (s.modEntry e fun f => { f with
      pDmassFsX := modCtlData key (fun x => { x with current := current }) f.pDmassFsX }) e
      { f with pDmassFsX := modCtlData key (fun x => { x with current := current }) f.pDmassFsX }
      (ls ++ [.move key current]) := by
  have hids : (modCtlData key (fun x => { x with current := current }) f.pDmassFsX).map
      (fun x => (x.addr, x.handlerIndex)) = f.pDmassFsX.map fun x => (x.addr, x.handlerIndex) :=
    map_modCtlData (g := fun x => { x with current := current }) (fun _ => rfl) f.pDmassFsX
  have hlen := congrArg List.length hids
  rw [List.length_map, List.length_map] at hlen
  refine ⟨?_, h.refer.trans hlen.symm, fun x hx => ?_, ?_⟩
  · rw [lookup_modEntry, if_pos rfl, h.entry]
    rfl
  · have hx' := List.mem_map_of_mem (f := fun x => (x.addr, x.handlerIndex)) hx
    rw [hids, List.mem_map] at hx'
    obtain ⟨y, hy, he⟩ := hx'
    have ha : y.addr = x.addr := (Prod.mk.inj he).1
    exact ha ▸ h.blocks y hy
  · have := h.unclosed.keep (l := .move key current) (fun _ => rfl) fun _ => rfl
    rwa [objectIds, ← hids] at this

theorem step (h : Tracked s e f ls) (hs : CtlStep e s l s') : ∃ f', Tracked s' e f' (ls ++ [l]) := by
  cases l with
  | create key object =>
    obtain ⟨⟨f', hf', hlen⟩, k, hs⟩ := hs
    obtain rfl := Option.some.inj (h.entry.symm.trans hf')
    exact h.create hlen hs
  | delete key r =>
    rcases deleteDmassCtlData_ok hs with ⟨hr, rfl⟩ | ⟨rfl, -⟩
    · refine ⟨f, h.entry, h.refer, h.blocks, h.unclosed.keep (fun _ => rfl) fun key' => ?_⟩
      rw [CtlEvent.closes_delete, decide_eq_false hr.ne, Bool.and_false]
    · obtain ⟨l₁, x, l₂, -, -, -, -, -, h'⟩ := h.delete_zero hs
      exact ⟨_, h'⟩
  | move key current =>
    obtain rfl := hs
    exact ⟨_, h.move key current⟩

/-- `delete_dmass_ctl_data` finds an object of a key exactly when the key is unmatched. -/
theorem delete_iff (h : Tracked s e f ls) (key : Int32) :
    ∃ r s', deleteDmassCtlData e key s = .ok (r, s') ∧ (r = 0 ↔ Unmatched ls key) := by
  have hsearch := h.search_iff key
  unfold deleteDmassCtlData
  rw [entry_eq_ok.2 h.entry, ok_bind]
  rcases unlinkCtlData_eq key f.pDmassFsX with ⟨hu, hs⟩ | ⟨l₁, x, l₂, -, -, -, hu, hs, -⟩ <;>
    rw [hs] at hsearch <;> rw [hu]
  · exact ⟨-2, s, rfl, by simpa using hsearch⟩
  · exact ⟨0, _, rfl, by simpa using hsearch⟩

theorem nil_iff (h : Tracked s e f ls) : f.pDmassFsX ≠ [] ↔ ∃ key, Unmatched ls key := by
  constructor
  · intro hne
    obtain ⟨x, hx⟩ := List.exists_mem_of_ne_nil _ hne
    refine ⟨x.handlerIndex, (h.unclosed.countP_pos _).1 ?_⟩
    rw [countP_ids]
    exact List.countP_pos_iff.2 ⟨x, hx, by simp⟩
  · rintro ⟨key, hkey⟩ hnil
    have := (h.unclosed.countP_pos key).2 hkey
    rw [countP_ids, hnil] at this
    cases this

/-- `delete_dmass_info` refuses exactly the entries with an unmatched open. -/
theorem deleteDmassInfo_iff (h : Tracked s e f ls) :
    ∃ r s', deleteDmassInfo e s = .ok (r, s') ∧ (r < 0 ↔ ∃ key, Unmatched ls key) := by
  rw [← h.nil_iff]
  have hrefer := h.refer
  unfold deleteDmassInfo
  rw [entry_eq_ok.2 h.entry, ok_bind]
  by_cases h0 : f.refer = 0
  · rw [h0] at hrefer
    have hnil : f.pDmassFsX = [] := List.eq_nil_of_length_eq_zero hrefer.symm
    rw [if_neg (not_not.2 h0), if_neg (not_not.2 hnil)]
    exact ⟨0, _, rfl, by simp [hnil]⟩
  · refine ⟨-1, s, if_pos h0, ?_⟩
    have hne : f.pDmassFsX ≠ [] := by
      rintro hnil
      rw [hnil] at hrefer
      exact h0 (UInt32.toNat_inj.1 hrefer)
    simp [hne]

end Tracked

/-- In every run of opens, closes and cursor moves on an entry that starts without objects, `refer` is the number
of its objects, a search and a close of a key find an object exactly when the key is unmatched, a close removes
the newest object of its key only, and the entry can be deleted exactly when no key is unmatched. -/
theorem handles_run {t : VfsState} {ls : List CtlEvent} (he : s.entries.lookup e = some f) (hx : f.pDmassFsX = [])
    (hr : f.refer = 0) (h : Run (CtlStep e) s ls t) : ∃ g, t.entries.lookup e = some g ∧
      g.refer.toNat = g.pDmassFsX.length ∧
      (∀ key, (searchDmassCtlData key g.pDmassFsX).isSome ↔ Unmatched ls key) ∧
      (∀ key, ∃ r t', deleteDmassCtlData e key t = .ok (r, t') ∧ (r = 0 ↔ Unmatched ls key)) ∧
      (∀ key t', deleteDmassCtlData e key t = .ok (0, t') → ∃ l₁ x l₂, g.pDmassFsX = l₁ ++ x :: l₂ ∧
        x.handlerIndex = key ∧
        (∀ y ∈ l₁ ++ l₂, y.handlerIndex = key → Older ls (y.addr, y.handlerIndex) (x.addr, x.handlerIndex)) ∧
        t'.entries.lookup e = some { g with pDmassFsX := l₁ ++ l₂, refer := g.refer - 1 } ∧
        x.addr ∉ t'.bufs ∧ ∀ y ∈ l₁ ++ l₂, y.addr ∈ t'.bufs) ∧
      ∃ r t', deleteDmassInfo e t = .ok (r, t') ∧ (r < 0 ↔ ∃ key, Unmatched ls key) := by
  have hrun : ∃ g, Tracked t e g ls := by
    induction h with
    | nil =>
      have h0 : objectIds f = [] := by rw [objectIds, hx]; rfl
      exact ⟨f, he, by rw [hr, hx]; rfl, by simp [hx], h0 ▸ Unclosed.nil⟩
    | snoc _ hl ih =>
      obtain ⟨g, hg⟩ := ih
      exact hg.step hl
  obtain ⟨g, hg⟩ := hrun
  refine ⟨g, hg.entry, hg.refer, hg.search_iff, hg.delete_iff, fun key t' ht' => ?_, hg.deleteDmassInfo_iff⟩
  obtain ⟨l₁, x, l₂, hl, hkey, hold, hin, hout, h'⟩ := hg.delete_zero ht'
  exact ⟨l₁, x, l₂, hl, hkey, hold, h'.entry, hout, hin⟩

/-- Two opens by one handle and a close: one open is left, so the entry is not deleted. -/
theorem handles_run_twoOpens : ∃ t, Run (CtlStep 1) mounted [.create 7 (some 4), .create 7 (some 5), .delete 7 0] t ∧
    (∃ g, t.entries.lookup 1 = some g ∧ g.refer.toNat = g.pDmassFsX.length ∧
      (searchDmassCtlData 7 g.pDmassFsX).isSome) ∧
    ∃ r t', deleteDmassInfo 1 t = .ok (r, t') ∧ r < 0 := by
  have h₀ : Run (CtlStep 1) mounted [] mounted := .nil mounted
  have h₁ := h₀.snoc (l := CtlEvent.create 7 (some 4)) ⟨⟨_, rfl, by decide⟩, idle, rfl⟩
  have h₂ := h₁.snoc (l := CtlEvent.create 7 (some 5)) ⟨⟨_, rfl, by decide⟩, idle, rfl⟩
  have h := h₂.snoc (l := CtlEvent.delete 7 0) rfl
  obtain ⟨g, hg, hrefer, hsearch, -, -, r, t', hdel, hneg⟩ := handles_run rfl rfl rfl h
  have hkey : Unmatched [.create 7 (some 4), .create 7 (some 5), .delete 7 0] 7 := by decide
  exact ⟨_, h, ⟨g, hg, hrefer, (hsearch 7).2 hkey⟩, r, t', hdel, hneg.2 ⟨7, hkey⟩⟩

end VitaUtility.Dmass
