import Mathlib.Data.Finset.Insert
import VitaUtility.Lib.Chain
import VitaUtility.Dmass.Types

/-!
# The state of the driver and its elementary updates

Entries live in a store keyed by their block address; the other live blocks of the heap are kept as
a set of addresses. A dereference of NULL or of a block that is not live is a `Fault`. The writes
through a pointer (`modEntry`, `modNode`) apply to the current content of the cell, so they stay
right when two pointers of a call are equal.
-/

namespace VitaUtility.Dmass

/-- Write through a pointer: `g` is applied to the cell `a`, if it is live. -/
def modifyAt {α : Type} (m : Store α) (a : Nat) (g : α → α) : Store α :=
  match m.lookup a with
  | none => m
  | some x => m.insert a (g x)

structure VfsState where
  /-- the live `FapsDmassFs` blocks of `FapsVfsHeap` -/
  entries : Store FapsDmassFs
  /-- its other live blocks: names, file data and `FapsDmassFsX` objects -/
  bufs : Finset Addr
  vnodes : Store SceVfsNode
  files : FilePtr → SceVfsFileObject
  pTree : Option Addr

namespace VfsState
variable (s : VfsState)

/-- The live blocks of the heap. -/
def live : Finset Addr := s.entries.keys ∪ s.bufs

/-- The vnodes the kernel will not hand out again: those still bound to an entry. -/
def nodesInUse : Finset NodePtr :=
  s.vnodes.keys.filter fun v => ((s.vnodes.lookup v).bind (·.devInfo)).isSome

/-- Following a `FapsDmassFs *`. -/
def entry (a : Addr) : Except Fault FapsDmassFs :=
  match s.entries.lookup a with
  | none => .error .freed
  | some f => .ok f

def deref (p : Option Addr) : Except Fault (Addr × FapsDmassFs) :=
  match p with
  | none => .error .null
  | some a =>
    match s.entries.lookup a with
    | none => .error .freed
    | some f => .ok (a, f)

def node (v : NodePtr) : Except Fault SceVfsNode :=
  match s.vnodes.lookup v with
  | none => .error .freed
  | some n => .ok n

def derefNode (p : Option NodePtr) : Except Fault SceVfsNode :=
  match p with
  | none => .error .null
  | some v => s.node v

/-- The vnode `v` is of the live entry `e`. -/
def entryOf (v : NodePtr) (e : Addr) (f : FapsDmassFs) : Prop :=
  (∃ n, s.vnodes.lookup v = some n ∧ n.devInfo = some e) ∧ s.entries.lookup e = some f

/-- The content of the entry of the vnode `v`. -/
def entryAt (v : NodePtr) : Option FapsDmassFs :=
  ((s.vnodes.lookup v).bind (·.devInfo)).bind fun e => s.entries.lookup e

/-- The `dev_info` of `v` is a live entry. -/
def liveNode (v : NodePtr) : Prop := ∃ e f, s.entryOf v e f

/-! ### Writes -/

def modEntry (a : Addr) (g : FapsDmassFs → FapsDmassFs) : VfsState :=
  { s with entries := modifyAt s.entries a g }

def modNode (v : NodePtr) (g : SceVfsNode → SceVfsNode) : VfsState :=
  { s with vnodes := modifyAt s.vnodes v g }

def setOffset (h : FilePtr) (offset : Int) : VfsState :=
  { s with files := Function.update s.files h { s.files h with offset := offset } }

/-- The first sibling link of a directory: `next_dir`, and `pTree` for the top. -/
def head (x : Option Addr) : Option Addr :=
  match x with
  | none => s.pTree
  | some d => (s.entries.lookup d).bind (·.nextDir)

def next? (a : Addr) : Option (Option Addr) := (s.entries.lookup a).map (·.next)

/-- `*ppFsInfo = q`, where the link is in the sibling `pred`, or is the `next_dir` of `d`. -/
def setLink (d : Addr) (pred : Option Addr) (q : Option Addr) : VfsState :=
  { s with entries := match pred with
      | none => modifyAt s.entries d fun f => { f with nextDir := q }
      | some a => modifyAt s.entries a fun f => { f with next := q } }

/-- `e->next = d->next_dir; d->next_dir = e;` -/
def pushEntry (d e : Addr) : VfsState :=
  (s.modEntry e fun f => { f with next := s.head (some d) }).modEntry d fun f => { f with nextDir := some e }

/-! ### The heap -/

def malloc (k : Answers) (i : Nat) : Option Addr × VfsState :=
  match k.malloc i s.live with
  | none => (none, s)
  | some a => (some a.1, { s with bufs := insert a.1 s.bufs })

/-- `dmass_free`; freeing NULL does nothing. -/
def dmassFree (p : Option Addr) : VfsState :=
  { s with bufs := match p with
      | none => s.bufs
      | some a => s.bufs.erase a }

end VfsState

/-! ### What the updates change -/

/-- The call returns; it runs into no fault. -/
def Returns {α : Type} (x : Except Fault α) : Prop := ∃ a, x = .ok a

theorem Returns.bind {α β : Type} {x : Except Fault α} {f : α → Except Fault β} {a : α} (hx : x = .ok a)
    (h : Returns (f a)) : Returns (x >>= f) := by
  subst hx; exact h

/-- The call returns something with `P`. -/
def Gives {α : Type} (x : Except Fault α) (P : α → Prop) : Prop := ∃ a, x = .ok a ∧ P a

theorem Gives.bind {α β : Type} {x : Except Fault α} {f : α → Except Fault β} {a : α} {P : β → Prop}
    (hx : x = .ok a) (h : Gives (f a) P) : Gives (x >>= f) P := by
  subst hx; exact h

theorem gives_ok {α : Type} {a : α} {P : α → Prop} : Gives (.ok a) P ↔ P a := by
  constructor
  · rintro ⟨b, hb, hP⟩
    cases hb
    exact hP
  · exact fun hP => ⟨a, rfl, hP⟩

theorem lookup_insert_ite {α : Type} (m : Store α) (a b : Nat) (x : α) :
    (m.insert a x).lookup b = if b = a then some x else m.lookup b := by
  split
  · subst b; exact Finmap.lookup_insert m
  · exact Finmap.lookup_insert_of_ne m ‹_›

theorem insert_lookup_self {α : Type} {m : Store α} {a : Nat} {x : α} (hx : m.lookup a = some x) :
    m.insert a x = m := by
  apply Finmap.ext_lookup
  intro b
  rw [lookup_insert_ite]
  split
  · subst b; exact hx.symm
  · rfl

theorem lookup_erase_ite {α : Type} (m : Store α) (a b : Nat) :
    (m.erase a).lookup b = if b = a then none else m.lookup b := by
  split
  · subst b; exact Finmap.lookup_erase a m
  · exact Finmap.lookup_erase_ne ‹_›

theorem lookup_modifyAt {α : Type} (m : Store α) (a b : Nat) (g : α → α) :
    (modifyAt m a g).lookup b = if b = a then (m.lookup a).map g else m.lookup b := by
  unfold modifyAt
  cases h : m.lookup a with
  | none =>
    simp only [Option.map_none]
    split
    · subst b; exact h
    · rfl
  | some x => exact lookup_insert_ite _ _ _ _

theorem keys_modifyAt {α : Type} (m : Store α) (a : Nat) (g : α → α) : (modifyAt m a g).keys = m.keys := by
  ext b
  rw [Finmap.mem_keys, Finmap.mem_keys, ← Finmap.lookup_isSome, ← Finmap.lookup_isSome, lookup_modifyAt]
  split
  · subst b; simp
  · rfl

/-- Two writes through one pointer. -/
theorem modifyAt_modifyAt {α : Type} (m : Store α) (a : Nat) (g g' : α → α) :
    modifyAt (modifyAt m a g) a g' = modifyAt m a (g' ∘ g) := by
  apply Finmap.ext_lookup
  intro b
  simp only [lookup_modifyAt, if_true, Option.map_map]
  split <;> rfl

theorem modifyAt_insert {α : Type} (m : Store α) (a : Nat) (x : α) (g : α → α) :
    modifyAt (m.insert a x) a g = m.insert a (g x) := by
  apply Finmap.ext_lookup
  intro b
  simp only [lookup_modifyAt, lookup_insert_ite, if_true, Option.map_some]
  split <;> rfl

/-! ### Linked lists in a store -/

section
variable {α : Type} {next : α → Option Nat} {set : Option Nat → α → α} {m : Store α} {a b : Nat}
  {p q pred : Option Nat} {l₁ l₂ : List Nat} {x : α}

/-- `*link = q`, where the link is the `next` of the cell `pred`, or is not in the store. -/
def relink (set : Option Nat → α → α) (m : Store α) (pred q : Option Nat) : Store α :=
  match pred with
  | none => m
  | some a => modifyAt m a (set q)

theorem lookup_relink : (relink set m pred q).lookup b =
    if pred = some b then (m.lookup b).map (set q) else m.lookup b := by
  cases pred with
  | none => rfl
  | some a =>
    rw [relink, lookup_modifyAt]
    by_cases hb : b = a
    · subst hb
      rw [if_pos rfl, if_pos rfl]
    · rw [if_neg hb, if_neg fun h => hb (Option.some.inj h).symm]

theorem lookup_relink_erase : ((relink set m pred q).erase a).lookup b =
    if b = a then none else if pred = some b then (m.lookup b).map (set q) else m.lookup b := by
  rw [lookup_erase_ite, lookup_relink]

/-- Freeing a cell after its link has been set past it. -/
theorem chain_relink_erase (hset : ∀ q x, next (set q x) = q)
    (h : Chain (fun b => (m.lookup b).map next) p (l₁ ++ a :: l₂)) (hx : m.lookup a = some x) :
    Chain (fun b => (((relink set m l₁.getLast? (next x)).erase a).lookup b).map next)
      (if l₁ = [] then next x else p) (l₁ ++ l₂) := by
  have hnd := h.nodup
  rw [List.nodup_middle, List.nodup_cons] at hnd
  have hlookup : ∀ b ∈ l₁ ++ l₂, ((relink set m l₁.getLast? (next x)).erase a).lookup b =
      if l₁.getLast? = some b then (m.lookup b).map (set (next x)) else m.lookup b := by
    intro b hb
    have hne : b ≠ a := by
      rintro rfl
      exact hnd.1 hb
    rw [lookup_relink_erase, if_neg hne]
  refine h.unlink (congrArg (Option.map next) hx) (fun b hb => ?_) fun b hb hne => ?_
  · have hmem := List.mem_append_left l₂ (List.mem_of_getLast? hb)
    obtain ⟨y, hy⟩ : ∃ y, m.lookup b = some y := by
      obtain ⟨q, hq⟩ := h.live (List.mem_append_left _ (List.mem_of_getLast? hb))
      obtain ⟨y, hy, -⟩ := Option.map_eq_some_iff.1 hq
      exact ⟨y, hy⟩
    rw [hlookup b hmem, if_pos hb, hy]
    exact congrArg some (hset _ _)
  · rw [hlookup b hb, if_neg hne]

end

namespace VfsState
variable {s s' : VfsState} {a b d e : Addr} {p : Option Addr} {v w : NodePtr} {f : FapsDmassFs}
  {n : SceVfsNode} {k : Answers} {i : Nat} {g : FapsDmassFs → FapsDmassFs} {gn : SceVfsNode → SceVfsNode}

theorem entry_eq_ok : s.entry a = .ok f ↔ s.entries.lookup a = some f := by
  unfold entry; split <;> simp_all

theorem deref_eq_ok {x : Addr × FapsDmassFs} :
    s.deref p = .ok x ↔ p = some x.1 ∧ s.entries.lookup x.1 = some x.2 := by
  obtain ⟨a, f⟩ := x
  cases p with
  | none => simp [deref]
  | some b =>
    cases h : s.entries.lookup b with
    | none =>
      simp only [deref, h, reduceCtorEq, Option.some.injEq, false_iff, not_and]
      rintro rfl hf
      rw [h] at hf; cases hf
    | some f' =>
      simp only [deref, h, Except.ok.injEq, Prod.mk.injEq, Option.some.injEq]
      constructor
      · rintro ⟨rfl, rfl⟩; exact ⟨rfl, h⟩
      · rintro ⟨rfl, hf⟩; exact ⟨rfl, Option.some.inj (h.symm.trans hf)⟩

theorem node_eq_ok : s.node v = .ok n ↔ s.vnodes.lookup v = some n := by
  unfold node; split <;> simp_all

theorem derefNode_eq_ok {q : Option NodePtr} :
    s.derefNode q = .ok n ↔ ∃ v, q = some v ∧ s.vnodes.lookup v = some n := by
  cases q <;> simp [derefNode, node_eq_ok]

theorem lookup_modEntry : (s.modEntry a g).entries.lookup b =
    if b = a then (s.entries.lookup a).map g else s.entries.lookup b := lookup_modifyAt ..

theorem lookup_modNode : (s.modNode v gn).vnodes.lookup w =
    if w = v then (s.vnodes.lookup v).map gn else s.vnodes.lookup w := lookup_modifyAt ..

section
variable (s : VfsState)

@[simp] theorem modEntry_bufs : (s.modEntry a g).bufs = s.bufs := rfl
@[simp] theorem modEntry_vnodes : (s.modEntry a g).vnodes = s.vnodes := rfl
@[simp] theorem modEntry_files : (s.modEntry a g).files = s.files := rfl
@[simp] theorem modEntry_pTree : (s.modEntry a g).pTree = s.pTree := rfl
@[simp] theorem modEntry_keys : (s.modEntry a g).entries.keys = s.entries.keys := keys_modifyAt ..

@[simp] theorem modNode_entries : (s.modNode v gn).entries = s.entries := rfl
@[simp] theorem modNode_bufs : (s.modNode v gn).bufs = s.bufs := rfl
@[simp] theorem modNode_files : (s.modNode v gn).files = s.files := rfl
@[simp] theorem modNode_pTree : (s.modNode v gn).pTree = s.pTree := rfl

@[simp] theorem setOffset_entries (h : FilePtr) (o : Int) : (s.setOffset h o).entries = s.entries := rfl
@[simp] theorem setOffset_bufs (h : FilePtr) (o : Int) : (s.setOffset h o).bufs = s.bufs := rfl
@[simp] theorem setOffset_vnodes (h : FilePtr) (o : Int) : (s.setOffset h o).vnodes = s.vnodes := rfl
@[simp] theorem setOffset_pTree (h : FilePtr) (o : Int) : (s.setOffset h o).pTree = s.pTree := rfl

theorem setOffset_self (h : FilePtr) (o : Int) : ((s.setOffset h o).files h).offset = o := by
  unfold setOffset
  dsimp only
  rw [Function.update_self]

theorem setOffset_of_ne {g h : FilePtr} (hg : g ≠ h) (o : Int) : (s.setOffset h o).files g = s.files g :=
  Function.update_of_ne hg ..

@[simp] theorem dmassFree_entries : (s.dmassFree p).entries = s.entries := rfl
@[simp] theorem dmassFree_vnodes : (s.dmassFree p).vnodes = s.vnodes := rfl
@[simp] theorem dmassFree_files : (s.dmassFree p).files = s.files := rfl
@[simp] theorem dmassFree_pTree : (s.dmassFree p).pTree = s.pTree := rfl

theorem mem_dmassFree_bufs : a ∈ (s.dmassFree p).bufs ↔ a ∈ s.bufs ∧ p ≠ some a := by
  cases p
  · simp [dmassFree]
  · simp [dmassFree, Finset.mem_erase, and_comm, eq_comm]

@[simp] theorem pushEntry_bufs : (s.pushEntry d e).bufs = s.bufs := rfl
@[simp] theorem pushEntry_vnodes : (s.pushEntry d e).vnodes = s.vnodes := rfl
@[simp] theorem pushEntry_files : (s.pushEntry d e).files = s.files := rfl
@[simp] theorem pushEntry_pTree : (s.pushEntry d e).pTree = s.pTree := rfl
@[simp] theorem pushEntry_keys : (s.pushEntry d e).entries.keys = s.entries.keys := by
  unfold pushEntry; rw [modEntry_keys, modEntry_keys]

@[simp] theorem setLink_bufs {q : Option Addr} : (s.setLink d p q).bufs = s.bufs := rfl
@[simp] theorem setLink_vnodes {q : Option Addr} : (s.setLink d p q).vnodes = s.vnodes := rfl
@[simp] theorem setLink_files {q : Option Addr} : (s.setLink d p q).files = s.files := rfl
@[simp] theorem setLink_pTree {q : Option Addr} : (s.setLink d p q).pTree = s.pTree := rfl
@[simp] theorem setLink_keys {q : Option Addr} : (s.setLink d p q).entries.keys = s.entries.keys := by
  cases p <;> exact keys_modifyAt ..

end

theorem mem_keys_iff : a ∈ s.entries.keys ↔ ∃ f, s.entries.lookup a = some f := by
  rw [Finmap.mem_keys, Finmap.mem_iff]

theorem lookup_of_keys {t : VfsState} (hk : t.entries.keys = s.entries.keys) (hf : s.entries.lookup a = some f) :
    ∃ f', t.entries.lookup a = some f' :=
  mem_keys_iff.1 (hk ▸ mem_keys_iff.2 ⟨f, hf⟩)

theorem entryAt_eq_some : s.entryAt v = some f ↔ ∃ e, s.entryOf v e f := by
  unfold entryAt entryOf
  simp only [Option.bind_eq_some_iff]

instance : Decidable (s.liveNode v) := decidable_of_iff ((s.entryAt v).isSome = true) <| by
  rw [Option.isSome_iff_exists, liveNode, exists_comm]
  simp only [entryAt_eq_some]

/-! ### Views

What an invariant reads of the entries is a projection `π` of their fields; updates of other fields
do not change the view. -/

section
variable {β : Type} {π : FapsDmassFs → β} {q : Option Addr}

def view (π : FapsDmassFs → β) (s : VfsState) (b : Addr) : Option β := (s.entries.lookup b).map π

theorem view_eq_some {x : β} : s.view π b = some x ↔ ∃ f, s.entries.lookup b = some f ∧ π f = x :=
  Option.map_eq_some_iff

theorem view_modEntry (hg : ∀ f, π (g f) = π f) : (s.modEntry a g).view π b = s.view π b := by
  unfold view
  rw [lookup_modEntry]
  split
  · subst b
    cases s.entries.lookup a <;> simp [hg]
  · rfl

theorem view_insert {f : FapsDmassFs} (hent : s'.entries = s.entries.insert a f) :
    s'.view π b = if b = a then some (π f) else s.view π b := by
  unfold view
  rw [hent, lookup_insert_ite]
  split <;> rfl

theorem view_insert_same {f f' : FapsDmassFs} (hf : s.entries.lookup a = some f)
    (hent : s'.entries = s.entries.insert a f') (hπ : π f' = π f) : s'.view π b = s.view π b := by
  rw [view_insert hent]
  split
  · rw [hπ, ‹b = a›]
    exact (view_eq_some.2 ⟨f, hf, rfl⟩).symm
  · rfl

theorem view_setLink (h₁ : ∀ f q, π { f with nextDir := q } = π f) (h₂ : ∀ f q, π { f with next := q } = π f) :
    (s.setLink d p q).view π b = s.view π b := by
  cases p
  · exact view_modEntry fun f => h₁ f q
  · exact view_modEntry fun f => h₂ f q

theorem view_pushEntry (h₁ : ∀ f q, π { f with nextDir := q } = π f) (h₂ : ∀ f q, π { f with next := q } = π f) :
    (s.pushEntry d e).view π b = s.view π b := by
  unfold pushEntry
  rw [view_modEntry fun f => h₁ f _, view_modEntry fun f => h₂ f _]

end

theorem malloc_cases (k : Answers) (i : Nat) (s : VfsState) :
    (k.block i s.live = none ∧ s.malloc k i = (none, s)) ∨
      ∃ a, a ∉ s.live ∧ k.block i s.live = some a ∧ s.malloc k i = (some a, { s with bufs := insert a s.bufs }) := by
  unfold malloc Answers.block
  cases k.malloc i s.live with
  | none => exact .inl ⟨rfl, rfl⟩
  | some a => exact .inr ⟨a.1, a.2, rfl, rfl⟩

theorem mem_live : a ∈ s.live ↔ a ∈ s.entries ∨ a ∈ s.bufs := by
  simp [live, Finmap.mem_keys]

end VfsState

end VitaUtility.Dmass
