import Mathlib.Data.List.Find
import VitaUtility.CStr
import VitaUtility.Lib.Chain
import VitaUtility.Lib.Run

/-!
# The modules that can be loaded

`load_module_add_path` of `kernel_module_loader` and the two searches in its list, over any sequence of calls. The
entries are in a store by their addresses; what `sceIoOpen` and the two allocations answer is part of a call.
-/

namespace VitaUtility.ModuleLoader

structure ModuleLoadParam where
  next : Option Nat
  path : CStr
  pathLength : UInt32
  modid : Int32
  number : UInt32

structure State where
  nodes : Nat → Option ModuleLoadParam
  pModuleLoadParamTree : Option Nat
  moduleNum : Int32

/-- A call of `load_module_add_path` with a path or `NULL`. -/
structure AddCall where
  path : Option CStr
  /-- `sceIoOpen` -/
  fd : Int32
  /-- `sce_paf_malloc` of the entry -/
  param : Option Nat
  /-- whether `sce_paf_malloc` of the path gives a block -/
  tmpPath : Bool

def loadModuleAddPath (s : State) (c : AddCall) : Int32 × State :=
  match c.path with
  | none => (-3, s)
  | some path =>
    if c.fd < 0 then (-4, s) else
    match c.param with
    | none => (-1, s)
    | some pModuleLoadParam =>
      -- an entry that was allocated and is not in the list is not in the store either
      let pathLength := path.length
      if pathLength = 0 then (-2, s) else
      if c.tmpPath = false then (-1, s) else
      let entry : ModuleLoadParam := {
        next := s.pModuleLoadParamTree
        path := path
        pathLength := UInt32.ofNat (pathLength + 1)
        modid := -1
        number := s.moduleNum.toUInt32 }
      (0, {
        nodes := fun a => if a = pModuleLoadParam then some entry else s.nodes a
        pModuleLoadParamTree := some pModuleLoadParam
        moduleNum := s.moduleNum + 1 })

/-- A search that does not return: it is still running, or has read what is not an entry or a string. -/
inductive Fault where
  | hang
  | dangling

/-- Whether the entry at `a` is a hit, and its `next`. -/
def peek (s : State) (hit : ModuleLoadParam → Bool) (a : Nat) : Except Fault (Bool × Option Nat) :=
  match s.nodes a with
  | none => .error .dangling
  | some param => .ok (hit param, param.next)

/-- The loop of both searches, for at most `n` entries. -/
def search (s : State) (hit : ModuleLoadParam → Bool) (n : Nat) : Except Fault (Option Nat) :=
  (findLink (peek s hit) .hang n none s.pModuleLoadParamTree).map (Option.map Prod.snd)

def saerchModuleEntry (s : State) (path : CStr) (n : Nat) : Except Fault (Option Nat) :=
  search s (fun param => path = param.path) n

def saerchModuleEntryByNumber (s : State) (number : UInt32) (n : Nat) : Except Fault (Option Nat) :=
  search s (fun param => number = param.number) n

/-! ### Sequences of calls -/

/-- The state, and the calls so far that returned 0, the first one first. -/
structure World where
  state : State
  added : List AddCall

/-- The list is empty. -/
def World.init : World := ⟨⟨fun _ => none, none, 0⟩, []⟩

/-- A call; `malloc` does not answer with the block of an entry. -/
def AddStep (w : World) (c : AddCall) (w' : World) : Prop :=
  (∀ a, c.param = some a → w.state.nodes a = none) ∧
  w'.state = (loadModuleAddPath w.state c).2 ∧
  w'.added = if (loadModuleAddPath w.state c).1 = 0 then w.added ++ [c] else w.added

/-- The `next` pointers of the entries. -/
def State.next (s : State) (a : Nat) : Option (Option Nat) := (s.nodes a).map ModuleLoadParam.next

/-- The entry of the `i`-th call. -/
structure EntryOf (s : State) (c : AddCall) (i : Nat) (a : Nat) (param : ModuleLoadParam) : Prop where
  addr : c.param = some a
  node : s.nodes a = some param
  path : c.path = some param.path
  number : param.number = UInt32.ofNat i

/-- The list has the entries of the calls `added`, the last one first, with their numbers. -/
structure Numbered (s : State) (added : List AddCall) : Prop where
  chain : Chain s.next s.pModuleLoadParamTree (added.reverse.filterMap AddCall.param)
  entry : ∀ i c, added[i]? = some c → ∃ a param, EntryOf s c i a param
  count : s.moduleNum = Int32.ofNat added.length

/-! ### One call -/

section
variable {s : State} {c : AddCall} {added : List AddCall} {a i n : Nat} {param : ModuleLoadParam} {w w' : World}
  {calls : List AddCall}

/-- A call fails and changes nothing, or puts its entry in front of the list. -/
theorem loadModuleAddPath_cases (s : State) (c : AddCall) :
    ((loadModuleAddPath s c).1 < 0 ∧ (loadModuleAddPath s c).2 = s) ∨
    ∃ a path, c.param = some a ∧ c.path = some path ∧ loadModuleAddPath s c = (0, {
      nodes := fun b => if b = a then
          some ⟨s.pModuleLoadParamTree, path, UInt32.ofNat (path.length + 1), -1, s.moduleNum.toUInt32⟩
        else s.nodes b
      pModuleLoadParamTree := some a
      moduleNum := s.moduleNum + 1 }) := by
  unfold loadModuleAddPath
  cases hpath : c.path with
  | none => exact .inl ⟨show (-3 : Int32) < 0 by decide, rfl⟩
  | some path =>
    dsimp only
    by_cases hfd : c.fd < 0
    · rw [if_pos hfd]
      exact .inl ⟨show (-4 : Int32) < 0 by decide, rfl⟩
    rw [if_neg hfd]
    cases hparam : c.param with
    | none => exact .inl ⟨show (-1 : Int32) < 0 by decide, rfl⟩
    | some a =>
      dsimp only
      by_cases hlen : path.length = 0
      · rw [if_pos hlen]
        exact .inl ⟨show (-2 : Int32) < 0 by decide, rfl⟩
      rw [if_neg hlen]
      by_cases htmp : c.tmpPath = false
      · rw [if_pos htmp]
        exact .inl ⟨show (-1 : Int32) < 0 by decide, rfl⟩
      rw [if_neg htmp]
      exact .inr ⟨a, path, rfl, rfl, rfl⟩

theorem EntryOf.mono {s' : State} (h : EntryOf s c i a param) (hnode : s'.nodes a = s.nodes a) :
    EntryOf s' c i a param :=
  ⟨h.addr, hnode.trans h.node, h.path, h.number⟩

theorem EntryOf.toNat_number (h : EntryOf s c i a param) (hi : i < 2 ^ 31) : param.number.toNat = i := by
  rw [h.number]
  exact UInt32.toNat_ofNat_of_lt' (Nat.lt_trans hi (by decide))

/-- A call keeps the numbering. -/
theorem numbered_step (h : Numbered w.state w.added) (hstep : AddStep w c w') : Numbered w'.state w'.added := by
  obtain ⟨state', added'⟩ := w'
  obtain ⟨hfresh, hstate, hadded⟩ := hstep
  dsimp only at hstate hadded ⊢
  rcases loadModuleAddPath_cases w.state c with ⟨hneg, hsame⟩ | ⟨a, path, hparam, hpath, hcall⟩
  · have hne : (loadModuleAddPath w.state c).1 ≠ 0 := by
      intro h0
      rw [h0] at hneg
      exact absurd hneg (by decide)
    rw [hstate, hsame, hadded, if_neg hne]
    exact h
  rw [hcall] at hstate hadded
  rw [if_pos rfl] at hadded
  subst hstate hadded
  have hnew := hfresh a hparam
  refine ⟨?_, ?_, ?_⟩
  · rw [List.reverse_append, List.reverse_singleton, List.singleton_append, List.filterMap_cons_some hparam]
    refine h.chain.push ?_ ?_ ?_
    · intro ha
      obtain ⟨q, hq⟩ := h.chain.live ha
      simp [State.next, hnew] at hq
    · simp [State.next]
    · intro b hb
      simp [State.next, hb]
  · intro i c' hi
    by_cases hlt : i < w.added.length
    · rw [List.getElem?_append_left hlt] at hi
      obtain ⟨a', param, hentry⟩ := h.entry i c' hi
      refine ⟨a', param, hentry.mono (if_neg ?_)⟩
      rintro rfl
      cases hentry.node.symm.trans hnew
    · obtain rfl : i = w.added.length := by
        have := (List.getElem?_eq_some_iff.1 hi).1
        rw [List.length_append, List.length_singleton] at this
        omega
      rw [List.getElem?_concat_length] at hi
      obtain rfl := Option.some.inj hi
      exact ⟨a, _, hparam, if_pos rfl, hpath, congrArg Int32.toUInt32 h.count⟩
  · rw [List.length_append, List.length_singleton, Int32.ofNat_add, ← h.count]
    rfl

theorem numbered_init : Numbered World.init.state World.init.added :=
  ⟨rfl, fun _ _ hi => (nomatch hi), rfl⟩

theorem numbered_run (h : Run AddStep .init calls w) : Numbered w.state w.added :=
  Run.invariant (I := fun w => Numbered w.state w.added) (fun _ _ _ => numbered_step) h numbered_init

/-! ### The searches -/

/-- Whether the entry of a call is a hit. -/
def hits (s : State) (hit : ModuleLoadParam → Bool) (c : AddCall) : Bool :=
  c.param.any fun a => (s.nodes a).any hit

theorem hits_eq {hit : ModuleLoadParam → Bool} (h : EntryOf s c i a param) : hits s hit c = hit param := by
  simp [hits, h.addr, h.node]

/-- A search comes back, with the entry of the last call that is a hit. -/
theorem search_eq {hit : ModuleLoadParam → Bool} (h : Numbered s added) (hn : added.length ≤ n) :
    search s hit n = .ok ((added.reverse.find? (hits s hit)).bind AddCall.param) := by
  have hlen : (added.reverse.filterMap AddCall.param).length ≤ n :=
    Nat.le_trans (List.length_filterMap_le _ _) (by simpa using hn)
  have hpeek : ∀ a ∈ added.reverse.filterMap AddCall.param, ∀ q, s.next a = some q →
      peek s hit a = .ok ((s.nodes a).any hit, q) := by
    intro a _ q hq
    obtain ⟨param, hnode, rfl⟩ := Option.map_eq_some_iff.1 hq
    rw [peek, hnode]
    rfl
  rw [search, findLink_chain h.chain hpeek hlen, Except.map, linkOf_snd, List.find?_filterMap]
  rfl

/-- The entry of the last call with the path. -/
theorem search_path (h : Numbered s added) (hn : added.length ≤ n) (path : CStr) :
    saerchModuleEntry s path n = .ok ((added.reverse.find? fun c => c.path = some path).bind AddCall.param) := by
  rw [saerchModuleEntry, search_eq h hn]
  congr 2
  refine List.find?_congr fun c hc => ?_
  obtain ⟨i, hi⟩ := List.getElem?_of_mem (List.mem_reverse.1 hc)
  obtain ⟨a, param, hentry⟩ := h.entry i c hi
  rw [hits_eq hentry, hentry.path]
  simp [eq_comm]

/-- The entry of the call with the number. -/
theorem search_number (h : Numbered s added) (hn : added.length ≤ n) (hfew : added.length < 2 ^ 31) (number : UInt32) :
    saerchModuleEntryByNumber s number n = .ok (added[number.toNat]?.bind AddCall.param) := by
  have hhit : ∀ i c, added[i]? = some c →
      (hits s (fun param => number = param.number) c = true ↔ i = number.toNat) := by
    intro i c hi
    obtain ⟨a, param, hentry⟩ := h.entry i c hi
    have hlt := (List.getElem?_eq_some_iff.1 hi).1
    rw [hits_eq hentry, decide_eq_true_iff, ← UInt32.toNat_inj, hentry.toNat_number (Nat.lt_trans hlt hfew)]
    exact eq_comm
  rw [saerchModuleEntryByNumber, search_eq h hn]
  congr 2
  cases hfind : added.reverse.find? (hits s fun param => number = param.number) with
  | none =>
    rw [List.find?_eq_none] at hfind
    cases hnum : added[number.toNat]? with
    | none => rfl
    | some c =>
      refine absurd ((hhit _ c hnum).2 rfl) (hfind c ?_)
      exact List.mem_reverse.2 (List.mem_of_getElem? hnum)
  | some c =>
    obtain ⟨i, hi⟩ := List.getElem?_of_mem (List.mem_reverse.1 (List.mem_of_find?_eq_some hfind))
    rw [← (hhit i c hi).1 (List.find?_some hfind), hi]

/-- The numbers from the head of the list on. -/
theorem numbers_eq (h : Numbered s added) :
    (added.reverse.filterMap AddCall.param).map (fun a => (s.nodes a).map ModuleLoadParam.number) =
      (List.range added.length).reverse.map fun i => some (UInt32.ofNat i) := by
  have hsome : ∀ c ∈ added, (c.param.map fun a => (s.nodes a).map ModuleLoadParam.number) =
      some ((c.param.bind s.nodes).map ModuleLoadParam.number) := by
    intro c hc
    obtain ⟨i, hi⟩ := List.getElem?_of_mem hc
    obtain ⟨a, param, hentry⟩ := h.entry i c hi
    simp [hentry.addr]
  rw [List.map_filterMap, List.filterMap_reverse, List.filterMap_congr hsome, List.filterMap_eq_map', List.map_reverse]
  congr 1
  refine List.ext_getElem? fun i => ?_
  rw [List.getElem?_map, List.getElem?_map]
  by_cases hi : i < added.length
  · obtain ⟨a, param, hentry⟩ := h.entry i added[i] (List.getElem?_eq_getElem hi)
    simp [hi, hentry.addr, hentry.node, hentry.number]
  · simp [Nat.not_lt.1 hi]

theorem module_numbers (h : Run AddStep .init calls w) (hfew : w.added.length < 2 ^ 31) :
    (∃ l, Chain w.state.next w.state.pModuleLoadParamTree l ∧
      l.map (fun a => (w.state.nodes a).map ModuleLoadParam.number) =
        (List.range w.added.length).reverse.map fun i => some (UInt32.ofNat i)) ∧
    w.state.moduleNum.toInt = w.added.length ∧
    (∀ i c, w.added[i]? = some c → ∃ a param, EntryOf w.state c i a param) ∧
    (∀ number n, w.added.length ≤ n →
      saerchModuleEntryByNumber w.state number n = .ok (w.added[number.toNat]?.bind AddCall.param)) ∧
    (∀ path n, w.added.length ≤ n → saerchModuleEntry w.state path n =
      .ok ((w.added.reverse.find? fun c => c.path = some path).bind AddCall.param)) ∧
    ∀ c, (loadModuleAddPath w.state c).1 ≠ 0 → (loadModuleAddPath w.state c).2 = w.state := by
  have hnum := numbered_run h
  refine ⟨⟨_, hnum.chain, numbers_eq hnum⟩, ?_, hnum.entry, fun number n hn => search_number hnum hn hfew number,
    fun path n hn => search_path hnum hn path, fun c hc => ?_⟩
  · rw [hnum.count]
    exact Int32.toInt_ofNat_of_lt hfew
  · rcases loadModuleAddPath_cases w.state c with ⟨-, hsame⟩ | ⟨a, path, -, -, hcall⟩
    · exact hsame
    · exact absurd (congrArg Prod.fst hcall) hc

end

/-- A call with the path `/` and the block `a` for the entry. -/
def addSlash (a : Nat) (fd : Int32) : AddCall := ⟨some [slash], fd, some a, true⟩

/-- Two entries with one path; the call between them fails. -/
theorem module_numbers_twoEntries : ∃ w, Run AddStep .init [addSlash 4 3, addSlash 5 (-1), addSlash 6 3] w ∧
    w.state.moduleNum.toInt = 2 ∧ saerchModuleEntryByNumber w.state 0 2 = .ok (some 4) ∧
    saerchModuleEntryByNumber w.state 2 2 = .ok none ∧ saerchModuleEntry w.state [slash] 2 = .ok (some 6) := by
  have hrun : Run AddStep .init [addSlash 4 3, addSlash 5 (-1), addSlash 6 3]
      ⟨(loadModuleAddPath (loadModuleAddPath World.init.state (addSlash 4 3)).2 (addSlash 6 3)).2,
        [addSlash 4 3, addSlash 6 3]⟩ := by
    refine Run.cons (t := ⟨(loadModuleAddPath World.init.state (addSlash 4 3)).2, [addSlash 4 3]⟩) ?_ <|
      Run.cons (t := ⟨(loadModuleAddPath World.init.state (addSlash 4 3)).2, [addSlash 4 3]⟩) ?_ <|
      Run.cons ?_ (.nil _)
    · exact ⟨fun _ _ => rfl, rfl, rfl⟩
    · exact ⟨fun _ ha => by cases ha; rfl, rfl, rfl⟩
    · exact ⟨fun _ ha => by cases ha; rfl, rfl, rfl⟩
  obtain ⟨-, hcount, -, hnumber, hpath, -⟩ := module_numbers hrun (by show 2 < 2 ^ 31; decide)
  exact ⟨_, hrun, hcount, hnumber 0 2 (by decide), hnumber 2 2 (by decide), hpath [slash] 2 (by decide)⟩

end VitaUtility.ModuleLoader
