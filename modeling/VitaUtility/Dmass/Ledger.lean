import VitaUtility.Dmass.Tree

/-!
# The heap ledger

An entry owns the blocks of its name, of its data and of its handle objects. `Ledger s L`: no block has
two owners, and the live blocks that are neither entries nor owned are those of `L`. What a call frees it
takes from an entry, and what it allocates it gives to one, but for the first copy of the name of a new
entry: no pointer keeps it, so it stays in `L` for good.
-/

namespace VitaUtility.Dmass
open VfsState

variable {s s' t : VfsState} {k : Answers} {r : Int} {a b d e : Addr} {v : NodePtr} {f f' : FapsDmassFs}
  {L N : Finset Addr} {n m : Nat}

/-- The blocks that an entry owns. -/
def blocks (f : FapsDmassFs) : List Addr :=
  (f.name.map (·.addr)).toList ++ ((f.data.map (·.addr)).toList ++ f.pDmassFsX.map (·.addr))

def VfsState.blocksAt (s : VfsState) (e : Addr) : List Addr := (s.view blocks e).getD []

theorem blocksAt_of_view (h : s'.view blocks e = s.view blocks e) : s'.blocksAt e = s.blocksAt e := by
  unfold blocksAt
  rw [h]

theorem blocksAt_eq (hf : s.entries.lookup e = some f) : s.blocksAt e = blocks f := by
  unfold blocksAt view
  rw [hf]
  rfl

theorem blocksAt_dead (hf : s.entries.lookup e = none) : s.blocksAt e = [] := by
  unfold blocksAt view
  rw [hf]
  rfl

structure Ledger (s : VfsState) (L : Finset Addr) : Prop where
  nodup : ∀ e, (s.blocksAt e).Nodup
  sole : ∀ e e' a, a ∈ s.blocksAt e → a ∈ s.blocksAt e' → e = e'
  bufs : ∀ a, a ∈ s.bufs ↔ a ∈ L ∨ ∃ e, a ∈ s.blocksAt e
  lost : ∀ a ∈ L, ∀ e, a ∉ s.blocksAt e
  apart : ∀ a ∈ s.bufs, a ∉ s.entries.keys

/-- `old` is freed, `new` allocated and both belong to `e`; `N` is allocated and belongs to none. -/
structure Swapped (s s' : VfsState) (e : Addr) (old new rest : List Addr) (N : Finset Addr) : Prop where
  other : ∀ b, b ≠ e → s'.blocksAt b = s.blocksAt b
  before : (s.blocksAt e).Perm (old ++ rest)
  after : (s'.blocksAt e).Perm (new ++ rest)
  nodup : new.Nodup
  fresh : ∀ a ∈ new, a ∉ s.live ∨ a ∈ old
  lost : ∀ a ∈ N, a ∉ s.live ∧ a ∉ new
  bufs : ∀ a, a ∈ s'.bufs ↔ a ∈ N ∨ a ∈ new ∨ (a ∈ s.bufs ∧ a ∉ old)
  keys : ∀ a ∈ s'.entries.keys, a ∈ s.entries.keys ∨ a ∉ s'.bufs

namespace Ledger
variable {old new rest : List Addr}

theorem mem_bufs (h : Ledger s L) (ha : a ∈ s.blocksAt e) : a ∈ s.bufs := (h.bufs a).2 (.inr ⟨e, ha⟩)

theorem mem_live (h : Ledger s L) (ha : a ∈ s.blocksAt e) : a ∈ s.live :=
  VfsState.mem_live.2 (.inr (h.mem_bufs ha))

theorem swap_mem_before (hS : Swapped s s' e old new rest N) : a ∈ s.blocksAt e ↔ a ∈ old ∨ a ∈ rest :=
  hS.before.mem_iff.trans List.mem_append

theorem swap_mem_after (hS : Swapped s s' e old new rest N) : a ∈ s'.blocksAt e ↔ a ∈ new ∨ a ∈ rest :=
  hS.after.mem_iff.trans List.mem_append

/-- A new block that was owned before, or was lost, was one of the old blocks. -/
theorem swap_old_of_new (hS : Swapped s s' e old new rest N) (ha : a ∈ new) (hb : a ∈ s.bufs) : a ∈ old :=
  (hS.fresh a ha).resolve_left fun hn => hn (VfsState.mem_live.2 (.inr hb))

theorem swap_disjoint (h : Ledger s L) (hS : Swapped s s' e old new rest N) (ho : a ∈ old) (hr : a ∈ rest) : False := by
  have hnd := hS.before.nodup_iff.1 (h.nodup e)
  exact (List.nodup_append.1 hnd).2.2 a ho a hr rfl

theorem swap_nodup (h : Ledger s L) (hS : Swapped s s' e old new rest N) (b : Addr) : (s'.blocksAt b).Nodup := by
  by_cases hb : b = e
  · subst b
    have hrest := (List.nodup_append.1 (hS.before.nodup_iff.1 (h.nodup e))).2.1
    rw [hS.after.nodup_iff, List.nodup_append]
    refine ⟨hS.nodup, hrest, ?_⟩
    rintro a ha _ hr rfl
    exact h.swap_disjoint hS (swap_old_of_new hS ha (h.mem_bufs ((swap_mem_before hS).2 (.inr hr)))) hr
  · rw [hS.other b hb]
    exact h.nodup b

/-- A block of `e` after the swap belongs to no other entry. -/
theorem swap_not_mem (h : Ledger s L) (hS : Swapped s s' e old new rest N) (hb : b ≠ e) (ha : a ∈ s'.blocksAt e) :
    a ∉ s.blocksAt b := by
  intro hab
  refine hb (h.sole b e a hab ((swap_mem_before hS).2 ?_))
  rcases (swap_mem_after hS).1 ha with ha | ha
  · exact .inl (swap_old_of_new hS ha (h.mem_bufs hab))
  · exact .inr ha

theorem swap_sole (h : Ledger s L) (hS : Swapped s s' e old new rest N) (b c : Addr) (hab : a ∈ s'.blocksAt b)
    (hac : a ∈ s'.blocksAt c) : b = c := by
  by_cases hb : b = e <;> by_cases hc : c = e
  · rw [hb, hc]
  · subst b
    rw [hS.other c hc] at hac
    exact absurd hac (h.swap_not_mem hS hc hab)
  · subst c
    rw [hS.other b hb] at hab
    exact absurd hab (h.swap_not_mem hS hb hac)
  · rw [hS.other b hb] at hab
    rw [hS.other c hc] at hac
    exact h.sole b c a hab hac

theorem swap_bufs (h : Ledger s L) (hS : Swapped s s' e old new rest N) :
    a ∈ s'.bufs ↔ a ∈ L ∪ N ∨ ∃ b, a ∈ s'.blocksAt b := by
  rw [hS.bufs, Finset.mem_union]
  constructor
  · rintro (ha | ha | ⟨ha, hold⟩)
    · exact .inl (.inr ha)
    · exact .inr ⟨e, (swap_mem_after hS).2 (.inl ha)⟩
    · rcases (h.bufs a).1 ha with ha | ⟨b, ha⟩
      · exact .inl (.inl ha)
      · refine .inr ⟨b, ?_⟩
        by_cases hb : b = e
        · subst b
          exact (swap_mem_after hS).2 (.inr (((swap_mem_before hS).1 ha).resolve_left hold))
        · rwa [hS.other b hb]
  · rintro ((ha | ha) | ⟨b, ha⟩)
    · exact .inr (.inr ⟨(h.bufs a).2 (.inl ha), fun ho => h.lost a ha e ((swap_mem_before hS).2 (.inl ho))⟩)
    · exact .inl ha
    · by_cases hb : b = e
      · subst b
        rcases (swap_mem_after hS).1 ha with ha | ha
        · exact .inr (.inl ha)
        · have hold := (swap_mem_before hS).2 (.inr ha)
          exact .inr (.inr ⟨h.mem_bufs hold, fun ho => h.swap_disjoint hS ho ha⟩)
      · rw [hS.other b hb] at ha
        exact .inr (.inr ⟨h.mem_bufs ha, fun ho => hb (h.sole b e a ha ((swap_mem_before hS).2 (.inl ho)))⟩)

theorem swap_lost (h : Ledger s L) (hS : Swapped s s' e old new rest N) (ha : a ∈ L ∪ N) (b : Addr) :
    a ∉ s'.blocksAt b := by
  intro hab
  by_cases hb : b = e
  · subst b
    rcases Finset.mem_union.1 ha with ha | ha
    · refine h.lost a ha e ((swap_mem_before hS).2 ?_)
      rcases (swap_mem_after hS).1 hab with hab | hab
      · exact .inl (swap_old_of_new hS hab ((h.bufs a).2 (.inl ha)))
      · exact .inr hab
    · rcases (swap_mem_after hS).1 hab with hab | hab
      · exact (hS.lost a ha).2 hab
      · exact (hS.lost a ha).1 (h.mem_live ((swap_mem_before hS).2 (.inr hab)))
  · rw [hS.other b hb] at hab
    rcases Finset.mem_union.1 ha with ha | ha
    · exact h.lost a ha b hab
    · exact (hS.lost a ha).1 (h.mem_live hab)

theorem swap_apart (h : Ledger s L) (hS : Swapped s s' e old new rest N) (ha : a ∈ s'.bufs) :
    a ∉ s'.entries.keys := by
  intro hk
  rcases hS.keys a hk with hk | hn
  swap
  · exact hn ha
  have hl : a ∈ s.live := VfsState.mem_live.2 (.inl (Finmap.mem_keys.1 hk))
  rcases (hS.bufs a).1 ha with ha | ha | ⟨ha, -⟩
  · exact (hS.lost a ha).1 hl
  · refine h.apart a (h.mem_bufs ((swap_mem_before hS).2 (.inl ?_))) hk
    exact (hS.fresh a ha).resolve_left fun hn => hn hl
  · exact h.apart a ha hk

theorem swap (h : Ledger s L) (hS : Swapped s s' e old new rest N) : Ledger s' (L ∪ N) where
  nodup := h.swap_nodup hS
  sole _ _ _ := h.swap_sole hS _ _
  bufs _ := h.swap_bufs hS
  lost _ := h.swap_lost hS
  apart _ := h.swap_apart hS

end Ledger

/-! ### Counting -/

/-- Besides the entries and what they own, `n` blocks are live. -/
def Accounted (s : VfsState) (n : Nat) : Prop := ∃ L, Ledger s L ∧ L.card = n

/-- `s'` has the losses of `s` and `n` more, of blocks that were not live. -/
def Loses (s s' : VfsState) (n : Nat) : Prop :=
  ∀ L, Ledger s L → ∃ N, Ledger s' (L ∪ N) ∧ N.card = n ∧ ∀ a ∈ N, a ∉ s.live

theorem Loses.accounted (h : Loses s s' m) (hA : Accounted s n) : Accounted s' (n + m) := by
  obtain ⟨L, hL, rfl⟩ := hA
  obtain ⟨N, hN, rfl, hfresh⟩ := h L hL
  refine ⟨L ∪ N, hN, Finset.card_union_of_disjoint ?_⟩
  rw [Finset.disjoint_left]
  intro a ha hN
  exact hfresh a hN (VfsState.mem_live.2 (.inr ((hL.bufs a).2 (.inl ha))))

theorem Swapped.loses {old new rest : List Addr} (h : Swapped s s' e old new rest N) : Loses s s' N.card :=
  fun _ hL => ⟨N, hL.swap h, rfl, fun a ha => (h.lost a ha).1⟩

/-- What the ledger reads is the same. -/
structure SameBlocks (s s' : VfsState) : Prop where
  view : ∀ b, s'.view blocks b = s.view blocks b
  keys : s'.entries.keys = s.entries.keys
  bufs : s'.bufs = s.bufs

namespace SameBlocks

theorem ledger (h : SameBlocks s s') (hL : Ledger s L) : Ledger s' L := by
  have hat : ∀ b, s'.blocksAt b = s.blocksAt b := fun b => blocksAt_of_view (h.view b)
  refine ⟨?_, ?_, ?_, ?_, ?_⟩
  · intro b
    rw [hat]
    exact hL.nodup b
  · intro b c a
    rw [hat, hat]
    exact hL.sole b c a
  · intro a
    simp only [hat, h.bufs]
    exact hL.bufs a
  · intro a ha b
    rw [hat]
    exact hL.lost a ha b
  · rw [h.bufs, h.keys]
    exact hL.apart

theorem loses (h : SameBlocks s s') : Loses s s' 0 := by
  intro L hL
  refine ⟨∅, ?_, rfl, nofun⟩
  rw [Finset.union_empty]
  exact h.ledger hL

theorem before (h : SameBlocks s t) (hl : Loses t s' n) : Loses s s' n := by
  intro L hL
  obtain ⟨N, hN, hn, hfresh⟩ := hl L (h.ledger hL)
  refine ⟨N, hN, hn, fun a ha => ?_⟩
  have := hfresh a ha
  unfold live at *
  rwa [h.keys, h.bufs] at this

theorem after (h : SameBlocks t s') (hl : Loses s t n) : Loses s s' n := by
  intro L hL
  obtain ⟨N, hN, hn, hfresh⟩ := hl L hL
  exact ⟨N, h.ledger hN, hn, hfresh⟩

end SameBlocks

theorem sameBlocks_setLink {p q : Option Addr} : SameBlocks s (s.setLink d p q) :=
  ⟨fun _ => view_setLink (by intros; rfl) (by intros; rfl), setLink_keys s, rfl⟩

theorem sameBlocks_pushEntry : SameBlocks s (s.pushEntry d e) :=
  ⟨fun _ => view_pushEntry (by intros; rfl) (by intros; rfl), pushEntry_keys s, rfl⟩

theorem SameBlocks.trans (h : SameBlocks s t) (h' : SameBlocks t s') : SameBlocks s s' :=
  ⟨fun b => (h'.view b).trans (h.view b), h'.keys.trans h.keys, h'.bufs.trans h.bufs⟩

theorem Loses.refl : Loses s s 0 := SameBlocks.loses ⟨fun _ => rfl, rfl, rfl⟩

/-- An update of the entry `e` that exchanges some of its blocks. -/
theorem loses_insert (old new : List Addr) {rest : List Addr} (hf : s.entries.lookup e = some f)
    (hs' : s'.entries = s.entries.insert e f') (hbefore : (blocks f).Perm (old ++ rest))
    (hafter : (blocks f').Perm (new ++ rest)) (hnd : new.Nodup) (hfresh : ∀ a ∈ new, a ∉ s.live ∨ a ∈ old)
    (hbufs : (∀ a ∈ old, a ∈ s.live) → ∀ a, a ∈ s'.bufs ↔ a ∈ new ∨ (a ∈ s.bufs ∧ a ∉ old)) : Loses s s' 0 := by
  intro L hL
  have hold : ∀ a ∈ old, a ∈ s.live := by
    intro a ha
    refine hL.mem_live (e := e) ?_
    rw [blocksAt_eq hf, hbefore.mem_iff]
    exact List.mem_append_left rest ha
  have hk : s'.entries.keys = s.entries.keys := by
    rw [hs', ← modifyAt_eq hf fun _ => f', keys_modifyAt]
  have hS : Swapped s s' e old new rest ∅ := by
    refine ⟨fun b hb => ?_, ?_, ?_, hnd, hfresh, nofun, fun a => ?_, fun a ha => .inl (hk ▸ ha)⟩
    · refine blocksAt_of_view ?_
      unfold view
      rw [hs', lookup_insert_ite, if_neg hb]
    · rwa [blocksAt_eq hf]
    · rwa [blocksAt_eq (by rw [hs', lookup_insert_ite, if_pos rfl])]
    · rw [hbufs hold]
      simp
  exact hS.loses L hL

/-! ### The calls -/

theorem mem_swapBufs {p : Option DataBlock} :
    a ∈ swapBufs s p b ↔ (a = b ∨ a ∈ s.bufs) ∧ a ∉ (p.map (·.addr)).toList := by
  unfold swapBufs
  rw [mem_dmassFree_bufs, Finset.mem_insert]
  simp [Option.mem_toList, eq_comm]

/-- The data of an entry among its blocks. -/
theorem blocks_data (f : FapsDmassFs) : (blocks f).Perm
    ((f.data.map (·.addr)).toList ++ ((f.name.map (·.addr)).toList ++ f.pDmassFsX.map (·.addr))) :=
  List.perm_append_comm_assoc _ _ _

/-- The data of `f` has moved to the new block `c`. -/
theorem loses_swapBufs {c : DataBlock} (hf : s.entries.lookup e = some f) (hc : c.addr ∉ s.live)
    (hs' : s'.entries = s.entries.insert e f') (hb : s'.bufs = swapBufs s f.data c.addr)
    (hname : f'.name = f.name) (hx : f'.pDmassFsX = f.pDmassFsX) (hdata : f'.data = some c) : Loses s s' 0 := by
  have hafter := blocks_data f'
  rw [hname, hx, hdata] at hafter
  refine loses_insert _ _ hf hs' (blocks_data f) hafter (List.nodup_singleton _) ?_ fun hold a => ?_
  · intro a ha
    rw [List.mem_singleton.1 ha]
    exact .inl hc
  · have hne : c.addr ∉ (f.data.map (·.addr)).toList := fun h => hc (hold _ h)
    rw [hb, mem_swapBufs]
    show _ ↔ a ∈ [c.addr] ∨ _
    rw [List.mem_singleton, or_and_right, and_iff_left_of_imp]
    rintro rfl
    exact hne

/-- The blocks of the entry stay the same. -/
theorem loses_insert_same (hf : s.entries.lookup e = some f) (hs' : s'.entries = s.entries.insert e f')
    (hb : s'.bufs = s.bufs) (hblocks : blocks f' = blocks f) : Loses s s' 0 := by
  refine loses_insert [] [] hf hs' (.refl _) (by rw [hblocks]; exact .refl _) .nil nofun ?_
  intro _ a
  rw [hb]
  simp

theorem loses_stored {o : Int} {src : List UInt8} {data : Option DataBlock} {bufs : Finset Addr}
    (hf : s.entries.lookup e = some f) (hS : Stored s f o src data bufs)
    (hs' : s'.entries = s.entries.insert e f') (hb : s'.bufs = bufs)
    (hname : f'.name = f.name) (hx : f'.pDmassFsX = f.pDmassFsX) (hdata : f'.data = data) : Loses s s' 0 := by
  rcases hS.block with ⟨hsame, rfl⟩ | ⟨c, rfl, hc, rfl⟩
  · refine loses_insert_same hf hs' hb ?_
    unfold blocks
    rw [hname, hx, hdata, hsame]
  · exact loses_swapBufs hf hc hs' hb hname hx hdata

theorem loses_chstatEntry {stat : SceIoStat} {bit : UInt32} (hs : chstatEntry k v e stat bit s = .ok (r, s')) :
    Loses s s' 0 := by
  obtain ⟨f, mode, hf, -, ⟨times, -, -, -, rfl⟩ | ⟨-, -, n, data, bufs, times, -, -, -, hR, rfl⟩⟩ :=
    chstatEntry_ok hs
  · exact loses_insert_same hf rfl rfl rfl
  rcases hR.block with ⟨-, rfl, rfl⟩ | ⟨c, rfl, hc, rfl, -⟩
  · refine loses_insert _ [] hf rfl (blocks_data f) (.refl _) .nil nofun fun _ a => ?_
    dsimp only
    rw [mem_dmassFree_bufs]
    simp [Option.mem_toList]
  · exact loses_swapBufs hf hc rfl rfl rfl rfl rfl

theorem blocks_handles (f : FapsDmassFs) (l₁ l₂ : List FapsDmassFsX) (x : FapsDmassFsX)
    (hx : f.pDmassFsX = l₁ ++ x :: l₂) :
    (blocks f).Perm ([x.addr] ++ blocks { f with pDmassFsX := l₁ ++ l₂ }) := by
  unfold blocks
  rw [hx]
  simp only [List.map_append, List.map_cons, ← List.append_assoc]
  exact List.perm_middle

/-- A handle object is added in front. -/
theorem loses_open {x : FapsDmassFsX} (hf : s.entries.lookup e = some f) (ha : x.addr ∉ s.live)
    (hs' : s'.entries = s.entries.insert e f') (hb : s'.bufs = insert x.addr s.bufs)
    (hname : f'.name = f.name) (hx : f'.pDmassFsX = x :: f.pDmassFsX) (hdata : f'.data = f.data) : Loses s s' 0 := by
  have hafter := blocks_handles f' [] f.pDmassFsX x hx
  have hrest : blocks { f' with pDmassFsX := [] ++ f.pDmassFsX } = blocks f := by
    unfold blocks
    rw [hname, hdata]
    rfl
  rw [hrest] at hafter
  refine loses_insert [] _ hf hs' (.refl _) hafter (List.nodup_singleton _) ?_ fun _ a => ?_
  · intro a ha'
    rw [List.mem_singleton.1 ha']
    exact .inl ha
  · rw [hb]
    simp

theorem loses_handleDropped {key : Int32} (h : HandleDropped s s' e key) : Loses s s' 0 := by
  obtain ⟨f, l₁, x, l₂, hf, hl, -, -, rfl⟩ := h
  refine loses_insert _ [] hf (modifyAt_eq hf _) (blocks_handles f l₁ l₂ x hl) (.refl _) .nil nofun ?_
  intro _ a
  rw [mem_dmassFree_bufs]
  simp [eq_comm]

/-- The first copy of the name is lost as soon as the entry is made. -/
theorem loses_newBlocks {str : CStr} {leak : Addr} {name : Option NameBlock} (hB : NewBlocks k s str e leak name s'.bufs)
    (hs' : s'.entries = s.entries.insert e f) (hf : blocks f = (name.map (·.addr)).toList) : Loses s s' 1 := by
  have he : e ∉ s.entries.keys ∧ e ∉ s.bufs := by
    have := hB.fresh
    rw [VfsState.mem_live, not_or] at this
    exact ⟨fun h => this.1 (Finmap.mem_keys.1 h), this.2⟩
  have hnew : s'.entries.lookup e = some f := by rw [hs', lookup_insert_ite, if_pos rfl]
  have hname : ∀ a ∈ (name.map (·.addr)).toList, a ∉ s.live ∧ a ≠ e ∧ a ≠ leak := by
    rcases hB.kept with ⟨rfl, -⟩ | ⟨b, hb, hbe, hbl, rfl, -⟩
    · nofun
    · intro a ha
      rw [List.mem_singleton.1 ha]
      exact ⟨hb, hbe, hbl⟩
  have hbufs : ∀ a, a ∈ s'.bufs ↔ a ∈ ({leak} : Finset Addr) ∨ a ∈ (name.map (·.addr)).toList ∨ a ∈ s.bufs := by
    intro a
    rw [Finset.mem_singleton]
    rcases hB.kept with ⟨rfl, hb⟩ | ⟨b, -, -, -, rfl, hb⟩
    · rw [hb]
      simp
    · rw [hb, Finset.mem_insert, Finset.mem_insert]
      show _ ↔ a = leak ∨ a ∈ [b] ∨ a ∈ s.bufs
      rw [List.mem_singleton, or_left_comm]
  have hS : Swapped s s' e [] (name.map (·.addr)).toList [] {leak} := by
    refine ⟨fun b hb => ?_, ?_, ?_, ?_, fun a ha => .inl (hname a ha).1, fun a ha => ?_, fun a => ?_, fun a ha => ?_⟩
    · refine blocksAt_of_view ?_
      unfold view
      rw [hs', lookup_insert_ite, if_neg hb]
    · rw [blocksAt_dead (Finmap.lookup_eq_none.2 fun h => he.1 (Finmap.mem_keys.2 h))]
      exact .nil
    · rw [blocksAt_eq hnew, hf, List.append_nil]
    · cases name with
      | none => exact .nil
      | some b => exact List.nodup_singleton _
    · rw [Finset.mem_singleton.1 ha]
      exact ⟨hB.lost, fun h => (hname leak h).2.2 rfl⟩
    · rw [hbufs]
      simp
    · rw [Finmap.mem_keys, hs', Finmap.mem_insert] at ha
      rcases ha with rfl | ha
      · -- the entry's own block is none of the buffers
        refine .inr fun hb => ?_
        rcases (hbufs a).1 hb with hb | hb | hb
        · exact hB.ne (Finset.mem_singleton.1 hb).symm
        · exact (hname a hb).2.1 rfl
        · exact he.2 hb
      · exact .inl (Finmap.mem_keys.2 ha)
  exact hS.loses

theorem loses_makeEntry {mode unk78 stAttr : UInt32} {fileInfo : SceVfsPath} {out : Option NodePtr}
    (hs : makeEntry (createDmassInfo mode) unk78 stAttr k v fileInfo s = .ok (r, out, s')) :
    (r < 0 ∧ s' = s) ∨ Loses s s' 1 := by
  rcases makeEntry_ok hs with ⟨hr, rfl⟩ | ⟨e, leak, name, bufs, n, d, fd, hB, -, -, -, -, hs⟩
  · exact .inl ⟨hr, rfl⟩
  right
  set s₁ : VfsState := { s with entries := s.entries.insert e (newDmassFs mode k name), bufs := bufs } with hs₁
  have h₁ : Loses s s₁ 1 := loses_newBlocks hB rfl (List.append_nil _)
  have h₂ : Loses s (s₁.pushEntry d e) 1 := sameBlocks_pushEntry.after h₁
  rcases hs with ⟨-, vnodes, -, rfl⟩ | ⟨-, w, -, -, rfl⟩
  · exact SameBlocks.after (t := s₁.pushEntry d e) ⟨fun _ => rfl, rfl, rfl⟩ h₂
  · exact SameBlocks.after (t := s₁.pushEntry d e)
      ⟨fun _ => view_modEntry (by intro; rfl), modEntry_keys _, rfl⟩ h₂

theorem loses_deleteDmassInfo (hs : deleteDmassInfo e s = .ok (r, s')) : Loses s s' 0 := by
  obtain ⟨f, hf, ⟨-, rfl, -⟩ | ⟨-, -, hx, rfl⟩⟩ := deleteDmassInfo_ok hs
  · exact .refl
  have hS : Swapped s { (s.dmassFree (f.name.map (·.addr))).dmassFree (f.data.map (·.addr)) with
      entries := s.entries.erase e } e (blocks f) [] [] ∅ := by
    refine ⟨fun b hb => ?_, ?_, ?_, .nil, nofun, nofun, fun a => ?_, fun a ha => .inl ?_⟩
    · refine blocksAt_of_view ?_
      unfold view
      dsimp only
      rw [lookup_erase_ite, if_neg hb]
    · rw [blocksAt_eq hf, List.append_nil]
    · rw [blocksAt_dead (by rw [lookup_erase_ite, if_pos rfl])]
      exact .nil
    · dsimp only
      rw [mem_dmassFree_bufs, mem_dmassFree_bufs]
      unfold blocks
      rw [hx]
      simp [Option.mem_toList, and_assoc]
    · dsimp only at ha
      rw [Finmap.keys_erase] at ha
      exact Finset.mem_of_mem_erase ha
  exact hS.loses

theorem loses_unlinkAndDelete (hs : unlinkAndDelete v e s = .ok (r, s')) : Loses s s' 0 := by
  obtain ⟨n, d, fd, -, -, -, ⟨-, -, rfl⟩ | ⟨pred, x, f, -, -, hs⟩⟩ := unlinkAndDelete_ok hs
  · exact .refl
  · exact sameBlocks_setLink.before (loses_deleteDmassInfo hs)

theorem loses_rename {argp : SceVopRenameArgs} {out : Option NodePtr} (hs : vopRename k argp s = .ok (r, out, s')) :
    Loses s s' 0 := by
  rcases vopRename_ok hs with ⟨-, vnodes, -, rfl⟩ | ⟨-, -, n, d, fd, e, f, pred, x, w, n3, d3, fd3, v, old, name, hn⟩
  · exact SameBlocks.loses ⟨fun _ => rfl, rfl, rfl⟩
  obtain ⟨-, -, -, -, hf, -, -, -, -, -, -, -, -, hname, rfl⟩ := hn
  set t := (s.setLink d pred f.next).pushEntry d3 e with ht
  have hst : SameBlocks s t := sameBlocks_setLink.trans sameBlocks_pushEntry
  obtain ⟨f₁, hf₁⟩ := lookup_of_keys hst.keys hf
  have hold : f₁.name = f.name := by
    have hv : t.view (·.name) e = s.view (·.name) e :=
      (view_pushEntry (by intros; rfl) (by intros; rfl)).trans (view_setLink (by intros; rfl) (by intros; rfl))
    unfold view at hv
    rw [hf₁, hf] at hv
    exact Option.some.inj hv
  -- the new name is allocated when the old one is free again
  have hfree : ∀ a, a ∈ (t.dmassFree (f.name.map (·.addr))).bufs ↔
      a ∈ t.bufs ∧ a ∉ (f₁.name.map (·.addr)).toList := by
    intro a
    rw [mem_dmassFree_bufs, hold]
    simp [Option.mem_toList]
  rcases nameCpy_cases k 0 argp.fileInfoNew.name (t.dmassFree (f.name.map (·.addr))) with ⟨hc, -⟩ | ⟨a, ha, -, hc⟩ <;>
    rw [hc] at hname ⊢ <;> subst name
  · refine hst.before (loses_insert (f₁.name.map (·.addr)).toList [] hf₁ (modifyAt_eq hf₁ _)
      (.refl _) (.refl _) .nil nofun fun _ b => ?_)
    rw [← hfree]
    simp
  · refine hst.before (loses_insert (f₁.name.map (·.addr)).toList [a] hf₁ (modifyAt_eq hf₁ _)
      (.refl _) (.refl _) (List.nodup_singleton a) ?_ fun _ b => ?_)
    · intro b hb
      obtain rfl := List.mem_singleton.1 hb
      by_cases hbo : b ∈ (f₁.name.map (·.addr)).toList
      · exact .inr hbo
      · refine .inl fun hbl => ha ?_
        rw [VfsState.mem_live] at hbl ⊢
        exact hbl.imp id fun hb => (hfree b).2 ⟨hb, hbo⟩
    · rw [← hfree]
      simp

/-! ### Runs -/

/-- The number of entries that a successful call makes. -/
def makes : VopCall → Nat
  | .create .. | .mkdir .. => 1
  | _ => 0

theorem loses_step {call : VopCall} (h0 : 0 ≤ r) (hs : VopStep s call r s') : Loses s s' (makes call) := by
  unfold VopStep at hs
  cases call with
  | «open» k argp object =>
    rcases vopOpen_ok hs with ⟨-, rfl⟩ | ⟨-, n, e, f, a, -, -, hf, ha, o, -, rfl⟩
    · exact SameBlocks.loses ⟨fun _ => rfl, rfl, rfl⟩
    · exact SameBlocks.before (t := { s with files := Function.update s.files argp.pVfsFileObject object })
        ⟨fun _ => rfl, rfl, rfl⟩ (loses_open (x := ⟨a, _, none⟩) hf ha rfl rfl rfl rfl rfl)
  | create k argp =>
    obtain ⟨out, hs⟩ := dropOut_eq_ok.1 hs
    rcases loses_makeEntry hs with ⟨hr, -⟩ | hl
    · omega
    · exact hl
  | close argp =>
    rcases vopClose_ok hs with ⟨-, rfl⟩ | ⟨-, n, e, -, -, hd⟩
    · exact .refl
    · exact loses_handleDropped hd
  | lookup k argp =>
    obtain ⟨out, hs⟩ := dropOut_eq_ok.1 hs
    rcases vopPartInit_ok hs with ⟨-, vnodes, -, rfl⟩ | ⟨-, n, e, f, w, -, -, -, -, -, rfl⟩
    · exact SameBlocks.loses ⟨fun _ => rfl, rfl, rfl⟩
    · exact SameBlocks.loses ⟨fun _ => view_modEntry (by intro; rfl), modEntry_keys s, rfl⟩
  | read argp =>
    obtain ⟨out, hs⟩ := dropOut_eq_ok.1 hs
    rcases vopRead_ok hs with rfl | ⟨n, e, f, m, -, -, -, -, -, rfl⟩
    · exact .refl
    · exact SameBlocks.loses ⟨fun _ => rfl, rfl, rfl⟩
  | write k argp =>
    rcases vopWrite_ok hs with ⟨-, rfl⟩ | ⟨n, e, f, data, bufs, -, -, hf, -, hS, -, rfl⟩
    · exact .refl
    · exact loses_stored hf hS rfl rfl rfl rfl rfl
  | lseek argp =>
    rcases vopLseek_ok hs with ⟨-, rfl⟩ | ⟨-, n, -, -, rfl⟩
    · exact .refl
    · exact SameBlocks.loses ⟨fun _ => rfl, rfl, rfl⟩
  | remove argp =>
    rcases vopRemove_ok hs with ⟨-, rfl⟩ | ⟨e, f, -, -, -, hs⟩
    · exact .refl
    · exact loses_unlinkAndDelete hs
  | mkdir k argp =>
    obtain ⟨out, hs⟩ := dropOut_eq_ok.1 hs
    rcases vopMkdir_ok hs with ⟨hr, -⟩ | ⟨n, d, f, -, -, -, -, hs⟩
    · omega
    rcases loses_makeEntry hs with ⟨hr, -⟩ | hl
    · omega
    · exact hl
  | rmdir argp =>
    rcases vopRmdir_ok hs with ⟨-, rfl⟩ | ⟨e, f, -, -, -, -, hs⟩
    · exact .refl
    · exact loses_unlinkAndDelete hs
  | dopen k argp =>
    rcases vopDopen_ok hs with ⟨-, rfl⟩ | ⟨-, n, e, f, a, -, -, hf, ha, rfl⟩
    · exact .refl
    · exact loses_open (x := ⟨a, _, f.nextDir⟩) hf ha (modifyAt_eq hf _) rfl rfl rfl rfl
  | dclose argp =>
    rcases vopDclose_ok hs with ⟨-, rfl⟩ | ⟨-, n, e, -, -, hd⟩
    · exact .refl
    · exact loses_handleDropped hd
  | dread argp =>
    obtain ⟨out, hs⟩ := dropOut_eq_ok.1 hs
    rcases vopDread_ok hs with ⟨-, rfl⟩ | ⟨-, n, e, f, l₁, x, l₂, a, c, -, -, hf, hl, -, -, -, rfl⟩
    · exact .refl
    · refine loses_insert_same hf (modifyAt_eq hf _) rfl ?_
      unfold blocks
      rw [hl]
      simp
  | chstat k argp =>
    rcases vopChstat_ok hs with ⟨-, rfl⟩ | ⟨e, -, hs⟩
    · exact .refl
    · exact loses_chstatEntry hs
  | rename k argp =>
    obtain ⟨out, hs⟩ := dropOut_eq_ok.1 hs
    exact loses_rename hs
  | pread argp =>
    obtain rfl := VopStep.pread_eq hs
    exact .refl
  | pwrite k argp =>
    rcases vopPwrite_ok hs with ⟨-, rfl⟩ | ⟨n, e, f, data, bufs, -, -, hf, -, hS, -, rfl⟩
    · exact .refl
    · exact loses_stored hf hS rfl rfl rfl rfl rfl
  | inactive argp =>
    rcases vopInactive_ok hs with ⟨-, rfl⟩ | ⟨-, v, n, -, -, ⟨-, rfl⟩ | ⟨e, f, -, -, rfl⟩⟩
    · exact .refl
    · exact SameBlocks.loses ⟨fun _ => rfl, rfl, rfl⟩
    · exact SameBlocks.loses ⟨fun _ => view_modEntry (by intro; rfl), modEntry_keys s, rfl⟩
  | chstatByFd k argp =>
    rcases vopChstatByFd_ok hs with ⟨-, rfl⟩ | ⟨n, e, -, -, hs⟩
    · exact .refl
    · exact loses_chstatEntry hs

/-- The mount makes the root directory, and loses a block to it. -/
theorem accounted_freshMount (h : FreshMount s) : Accounted s 1 := by
  obtain ⟨k, v, m, s₀, e, leak, name, bufs, n, hU, hB, -, hent, hb, -, -⟩ := freshMount_ok h
  have h₀ : Accounted s₀ 0 := by
    have hat : ∀ b, s₀.blocksAt b = [] := by
      intro b
      refine blocksAt_dead ?_
      rw [hU.entries]
      rfl
    refine ⟨∅, ⟨?_, ?_, ?_, nofun, ?_⟩, rfl⟩
    · intro b
      rw [hat]
      exact .nil
    · intro b c a ha
      rw [hat] at ha
      cases ha
    · intro a
      simp [hat, hU.bufs]
    · rw [hU.bufs]
      nofun
  subst hb
  rw [← hU.entries] at hent
  exact (loses_newBlocks hB hent (List.append_nil _)).accounted h₀

theorem accounted_run {ls : List (VopCall × Int)} (h0 : FreshMount s)
    (h : VopRun (fun _ r _ => 0 ≤ r) s ls s') : Accounted s' (1 + (ls.map fun l => makes l.1).sum) := by
  refine Run.sum_invariant (I := fun n s => Accounted s n) (fun n s l t hA hl => ?_) h (accounted_freshMount h0)
  exact (loses_step hl.1 hl.2).accounted hA

/-- The block is an entry that `pTree` leads to, or one that such an entry owns. -/
def Owned (s : VfsState) (a : Addr) : Prop :=
  ∃ e f, Reachable s e ∧ s.entries.lookup e = some f ∧ (a = e ∨ a ∈ blocks f)

/-- The live blocks are exactly the owned ones. -/
def HeapExact (s : VfsState) : Prop := ∀ a, a ∈ s.live ↔ Owned s a

theorem Ledger.not_owned (h : Ledger s L) (ha : a ∈ L) : ¬ Owned s a := by
  rintro ⟨e, f, -, hf, rfl | hb⟩
  · exact h.apart a ((h.bufs a).2 (.inl ha)) (mem_keys_iff.2 ⟨f, hf⟩)
  · rw [← blocksAt_eq hf] at hb
    exact h.lost a ha e hb

/-- One block is lost to the mount and one to each new entry, so the live blocks are never exactly the owned
ones, and no removal of a new file restores the heap. -/
theorem blockLost_run {ls : List (VopCall × Int)} (h0 : FreshMount s) (h : VopRun (fun _ r _ => 0 ≤ r) s ls s') :
    Accounted s' (1 + (ls.map fun l => makes l.1).sum) ∧ ¬ HeapExact s' ∧
      ∀ k argp argp' t u, VopStep s' (.create k argp) 0 t → VopStep t (.remove argp') 0 u → u.live ≠ s'.live := by
  obtain ⟨L, hL, hn⟩ := accounted_run h0 h
  refine ⟨⟨L, hL, hn⟩, fun hown => ?_, ?_⟩
  · obtain ⟨a, ha⟩ : L.Nonempty := by
      rw [← Finset.card_pos]
      omega
    have hlive : a ∈ s'.live := VfsState.mem_live.2 (.inr ((hL.bufs a).2 (.inl ha)))
    exact hL.not_owned ha ((hown a).1 hlive)
  · intro k argp argp' t u ht hu heq
    obtain ⟨N, hN, hcard, hfresh⟩ := loses_step le_rfl ht L hL
    obtain ⟨M, hM, -, -⟩ := loses_step le_rfl hu (L ∪ N) hN
    obtain ⟨a, ha⟩ := Finset.card_eq_one.1 hcard
    have haN : a ∈ N := by rw [ha]; exact Finset.mem_singleton_self a
    refine hfresh a haN ?_
    rw [← heq, VfsState.mem_live]
    refine .inr ((hM.bufs a).2 (.inl ?_))
    exact Finset.mem_union_left _ (Finset.mem_union_right _ haN)

def createAndRemove : List VopCall := [.create idle ⟨0, inRoot chA⟩, .remove ⟨0, inRoot chA⟩]

theorem blockLost_run_createAndRemove : ¬ HeapExact (lastState createAndRemove mounted) := by
  have hok : okRun (fun _ r _ => 0 ≤ r) createAndRemove mounted = true := by decide +kernel
  obtain ⟨ls, h⟩ := okRun_run hok
  exact (blockLost_run freshMount_mounted h).2.1

/-- Block 2 is lost to the mount, block 5 to the file. -/
theorem not_heapExact_createAndRemove :
    let t := lastState createAndRemove mounted
    FreshMount mounted ∧ (∃ ls, VopRun (fun _ r _ => 0 ≤ r) mounted ls t) ∧
      mounted.live = {1, 2, 3} ∧ t.live = {1, 2, 3, 5} ∧ ¬ HeapExact t := by
  intro t
  have hlive : t.live = {1, 2, 3, 5} := by decide +kernel
  refine ⟨freshMount_mounted, okRun_run (by decide +kernel), by decide +kernel, hlive, fun hown => ?_⟩
  obtain ⟨e, f, -, hf, hb⟩ := (hown 5).1 (by rw [hlive]; decide)
  have hkeys : t.entries.keys = {1} := by decide +kernel
  have hroot : t.view blocks 1 = some [3] := by decide +kernel
  have he : e ∈ t.entries.keys := mem_keys_iff.2 ⟨f, hf⟩
  rw [hkeys, Finset.mem_singleton] at he
  subst he
  obtain ⟨f', hf', hbl⟩ := view_eq_some.1 hroot
  obtain rfl := Option.some.inj (hf.symm.trans hf')
  rw [hbl] at hb
  revert hb
  decide

end VitaUtility.Dmass
