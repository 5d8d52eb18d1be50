import VitaUtility.Dmass.Call

/-!
# Process contexts (`dmass_process.c`, and the event handlers of `main.c`)

For each process there is a context in the list at `pProcContextTop`, and the context owns a memory block. The
handler of a created process follows the pointer that `dmass_create_proc_context` sets, also when it did not set
it; as long as that does not happen, the list and the blocks stay in step (`processRun_iff`).
-/

namespace VitaUtility.Dmass

abbrev SceUID := Int32

def SCE_GUID_KERNEL_PROCESS_ID : SceUID := 0x10005

/-- What a `membase` points at. -/
inductive Membase where
  | null
  /-- the base of the memory block `memid` -/
  | base (memid : SceUID)
  | elsewhere
  deriving DecidableEq

structure FapsDmassProcessContext where
  next : Option Addr
  pid : SceUID
  memid : SceUID
  membase : Membase

/-- What an event may do instead of returning. -/
inductive ProcFault where
  /-- `pContext` is followed and was never set -/
  | indeterminate
  /-- a pointer to a freed context is followed -/
  | freed
  /-- a memory block is freed that is not allocated -/
  | notAllocated
  /-- a `memset` is not on an allocated memory block -/
  | wild
  /-- a loop over a cyclic list does not end -/
  | hang
  deriving DecidableEq

/-- What the kernel answers during one event. -/
structure ProcAnswers where
  /-- `dmass_malloc`, when the contexts `L` are live -/
  malloc : (L : Finset Addr) → Option { a : Addr // a ∉ L }
  /-- what the `memid` and `membase` of a new context hold -/
  leftover : SceUID × Membase
  /-- `ksceKernelAllocMemBlock`, when the blocks `L` are allocated -/
  allocMemBlock : (L : Finset SceUID) → Except { r : SceUID // r < 0 } { m : SceUID // 0 ≤ m ∧ m ∉ L }

structure ProcState where
  contexts : Store FapsDmassProcessContext
  pProcContextTop : Option Addr
  /-- the allocated memory blocks -/
  memBlocks : Finset SceUID

namespace ProcState
variable (s : ProcState)

/-- Following a `FapsDmassProcessContext *`. -/
def context (a : Addr) : Except ProcFault FapsDmassProcessContext :=
  match s.contexts.lookup a with
  | none => .error .freed
  | some c => .ok c

def modContext (a : Addr) (g : FapsDmassProcessContext → FapsDmassProcessContext) : ProcState :=
  { s with contexts := modifyAt s.contexts a g }

def next? (a : Addr) : Option (Option Addr) := (s.contexts.lookup a).map (·.next)

/-- One round of the loops: does `pContext` have the pid, and where does its `next` point? -/
def peekPid (pid : SceUID) (pContext : Addr) : Except ProcFault (Bool × Option Addr) :=
  match s.contexts.lookup pContext with
  | none => .error .freed
  | some c => .ok (pid = c.pid, c.next)

def findContext (pid : SceUID) : Except ProcFault (Option (Option Addr × Addr)) :=
  findLink (s.peekPid pid) .hang s.contexts.keys.card none s.pProcContextTop

/-- `memset(membase, 0xAA, TEST_MEMORY_SIZE)` -/
def memset (membase : Membase) : Except ProcFault Unit :=
  match membase with
  | .base memid => if memid ∈ s.memBlocks then .ok () else .error .wild
  | _ => .error .wild

def freeMemBlock (memid : SceUID) : Except ProcFault ProcState :=
  if memid ∈ s.memBlocks then .ok { s with memBlocks := s.memBlocks.erase memid } else .error .notAllocated

end ProcState

/-! ### `dmass_process.c` -/

/-- `none`: an error is returned and `*ppContext` is not written. -/
def dmassSearchProcContext (pid : SceUID) (s : ProcState) : Except ProcFault (Option Addr) := do
  match ← s.findContext pid with
  | none => return none
  | some (_, pContext) => return some pContext

/-- The result, and the context that `*ppContext` is set to. -/
def dmassCreateProcContext (k : ProcAnswers) (pid : SceUID) (s : ProcState) :
    Except ProcFault (Int × Option Addr × ProcState) := do
  match ← dmassSearchProcContext pid s with
  | some _ => return (-1, none, s)
  | none =>
    match k.malloc s.contexts.keys with
    | none => return (-2, none, s)
    | some pContext =>
      return (0, some pContext.1, { s with
        contexts := s.contexts.insert pContext.1 ⟨s.pProcContextTop, pid, k.leftover.1, k.leftover.2⟩
        pProcContextTop := some pContext.1 })

def dmassDeleteProcContext (pid : SceUID) (s : ProcState) : Except ProcFault (Int × ProcState) := do
  match ← s.findContext pid with
  | none => return (-2, s)
  | some (pred, pContext) =>
    let c ← s.context pContext
    return (0, { s with
      contexts := (relink (fun q c => { c with next := q }) s.contexts pred c.next).erase pContext
      pProcContextTop := if pred = none then c.next else s.pProcContextTop })

/-! ### The event handlers -/

def dmassCreateProcessResource (k : ProcAnswers) (pid : SceUID) (s : ProcState) :
    Except ProcFault (Int × ProcState) := do
  let (_, pContext, s) ← dmassCreateProcContext k pid s
  match pContext with
  | none => .error .indeterminate
  | some pContext =>
    let _ ← s.context pContext
    match k.allocMemBlock s.memBlocks with
    | .error res => return (0, s.modContext pContext fun c => { c with memid := res.1 })
    | .ok memid => return (0, { s.modContext pContext fun c => { c with
        memid := memid.1, membase := .base memid.1 } with memBlocks := insert memid.1 s.memBlocks })

/-- The first part of `dmass_delete_process_resource`: the memory of the kernel process is overwritten. -/
def wipeKernelMemory (s : ProcState) : Except ProcFault Unit := do
  match ← dmassSearchProcContext SCE_GUID_KERNEL_PROCESS_ID s with
  | none => return ()
  | some pContext =>
    let c ← s.context pContext
    if c.membase ≠ .null then s.memset c.membase else return ()

/-- Its second part: the memory block of `pContext` is freed. -/
def releaseMemory (pContext : Addr) (s : ProcState) : Except ProcFault ProcState := do
  let c ← s.context pContext
  if 0 ≤ c.memid then
    s.memset c.membase
    let s ← s.freeMemBlock c.memid
    return s.modContext pContext fun c => { c with memid := -1 }
  else return s

def dmassDeleteProcessResource (pid : SceUID) (s : ProcState) : Except ProcFault (Int × ProcState) := do
  wipeKernelMemory s
  match ← dmassSearchProcContext pid s with
  | none => return (-1, s)
  | some pContext =>
    let s ← releaseMemory pContext s
    let (res, s) ← dmassDeleteProcContext pid s
    if res < 0 then return (res, s) else return (0, s)

def dmassProcCreate (k : ProcAnswers) (pid : SceUID) (s : ProcState) : Except ProcFault (Int × ProcState) := do
  let (_, s) ← dmassCreateProcessResource k pid s
  return (0, s)

def dmassProcExit (pid : SceUID) (s : ProcState) : Except ProcFault (Int × ProcState) := do
  let (_, s) ← dmassDeleteProcessResource pid s
  return (0, s)

def dmassProcKill (pid : SceUID) (s : ProcState) : Except ProcFault (Int × ProcState) := do
  let (_, s) ← dmassDeleteProcessResource pid s
  return (0, s)

inductive ProcEvent where
  | create (k : ProcAnswers) (pid : SceUID)
  | exit (pid : SceUID)
  | kill (pid : SceUID)

def ProcEvent.exec (s : ProcState) : ProcEvent → Except ProcFault (Int × ProcState)
  | .create k pid => dmassProcCreate k pid s
  | .exit pid => dmassProcExit pid s
  | .kill pid => dmassProcKill pid s

/-- The handler of `ev` returns. -/
def ProcStep (s : ProcState) (ev : ProcEvent) (s' : ProcState) : Prop := ∃ r, ev.exec s = .ok (r, s')

/-- The state after `module_start`. -/
def ProcState.start : ProcState := ⟨∅, none, ∅⟩

/-! ### Who owns which memory block -/

/-- What a context says apart from its link. -/
structure ProcInfo where
  pid : SceUID
  memid : SceUID
  membase : Membase

/-- The contexts `info` are of different processes, and the allocated blocks are theirs, one each. -/
structure Owns (info : Addr → Option ProcInfo) (memBlocks : Finset SceUID) : Prop where
  pids : ∀ a b i j, info a = some i → info b = some j → i.pid = j.pid → a = b
  base : ∀ a i, info a = some i → 0 ≤ i.memid → i.membase = .base i.memid ∧ i.memid ∈ memBlocks
  owner : ∀ m ∈ memBlocks, 0 ≤ m ∧ ∃ a i, info a = some i ∧ i.memid = m
  single : ∀ a b i j, info a = some i → info b = some j → 0 ≤ i.memid → i.memid = j.memid → a = b

namespace Owns
variable {info : Addr → Option ProcInfo} {memBlocks : Finset SceUID} {a b : Addr} {i j n : ProcInfo} {m : SceUID}

theorem empty : Owns (fun _ => none) ∅ := ⟨nofun, nofun, nofun, nofun⟩

theorem update_eq_some {x : Option ProcInfo} : Function.update info a x b = some i ↔
    (b = a ∧ x = some i) ∨ (b ≠ a ∧ info b = some i) := by
  rw [Function.update_apply]
  split <;> simp [*]

theorem not_neg_of_le (h : 0 ≤ m) : ¬ m < 0 := Int32.not_lt.2 h

/-- A new process, without a block. -/
theorem add (h : Owns info memBlocks) (hpid : ∀ b i, info b = some i → i.pid ≠ n.pid) (ha : info a = none)
    (hn : n.memid < 0) : Owns (Function.update info a (some n)) memBlocks := by
  refine ⟨fun b c i j hi hj hij => ?_, fun b i hi h0 => ?_, fun m hm => ?_, fun b c i j hi hj h0 hij => ?_⟩
  · rcases update_eq_some.1 hi with ⟨rfl, ⟨⟩⟩ | ⟨-, hi'⟩ <;> rcases update_eq_some.1 hj with ⟨rfl, ⟨⟩⟩ | ⟨-, hj'⟩
    · rfl
    · exact absurd hij.symm (hpid c j hj')
    · exact absurd hij (hpid b i hi')
    · exact h.pids b c i j hi' hj' hij
  · rcases update_eq_some.1 hi with ⟨rfl, ⟨⟩⟩ | ⟨-, hi'⟩
    · exact absurd hn (not_neg_of_le h0)
    · exact h.base b i hi' h0
  · obtain ⟨h0, b, i, hi, him⟩ := h.owner m hm
    refine ⟨h0, b, i, update_eq_some.2 (.inr ⟨?_, hi⟩), him⟩
    rintro rfl
    cases ha.symm.trans hi
  · rcases update_eq_some.1 hi with ⟨rfl, ⟨⟩⟩ | ⟨-, hi'⟩
    · exact absurd hn (not_neg_of_le h0)
    rcases update_eq_some.1 hj with ⟨rfl, ⟨⟩⟩ | ⟨-, hj'⟩
    · exact absurd (hij ▸ hn) (not_neg_of_le h0)
    · exact h.single b c i j hi' hj' h0 hij

/-- What is new in the context of a process leaves its pid. -/
theorem pids_update (h : Owns info memBlocks) (hi : info a = some i) (hn : n.pid = i.pid) (b c : Addr) (j k : ProcInfo)
    (hj : Function.update info a (some n) b = some j) (hk : Function.update info a (some n) c = some k)
    (hjk : j.pid = k.pid) : b = c := by
  rcases update_eq_some.1 hj with ⟨rfl, ⟨⟩⟩ | ⟨-, hj'⟩ <;> rcases update_eq_some.1 hk with ⟨rfl, ⟨⟩⟩ | ⟨-, hk'⟩
  · rfl
  · exact h.pids _ _ _ _ hi hk' (hn.symm.trans hjk)
  · exact h.pids _ _ _ _ hj' hi (hjk.trans hn)
  · exact h.pids _ _ _ _ hj' hk' hjk

/-- A process without a block gets the new block `m`. -/
theorem acquire (h : Owns info memBlocks) (hi : info a = some i) (hneg : i.memid < 0) (h0 : 0 ≤ m)
    (hm : m ∉ memBlocks) : Owns (Function.update info a (some ⟨i.pid, m, .base m⟩)) (insert m memBlocks) := by
  have hother : ∀ b j, info b = some j → 0 ≤ j.memid → j.memid ≠ m := by
    rintro b j hj hj0 rfl
    exact hm (h.base b j hj hj0).2
  refine ⟨h.pids_update hi rfl, fun b j hj hj0 => ?_, fun m' hm' => ?_, fun b c j k hj hk hj0 hjk => ?_⟩
  · rcases update_eq_some.1 hj with ⟨rfl, ⟨⟩⟩ | ⟨-, hj'⟩
    · exact ⟨rfl, Finset.mem_insert_self ..⟩
    · exact (h.base b j hj' hj0).imp id Finset.mem_insert_of_mem
  · rcases Finset.mem_insert.1 hm' with rfl | hm'
    · exact ⟨h0, a, _, update_eq_some.2 (.inl ⟨rfl, rfl⟩), rfl⟩
    obtain ⟨hm0, b, j, hj, rfl⟩ := h.owner m' hm'
    refine ⟨hm0, b, j, update_eq_some.2 (.inr ⟨?_, hj⟩), rfl⟩
    rintro rfl
    obtain rfl := Option.some.inj (hi.symm.trans hj)
    exact not_neg_of_le hm0 hneg
  · rcases update_eq_some.1 hj with ⟨rfl, ⟨⟩⟩ | ⟨-, hj'⟩ <;> rcases update_eq_some.1 hk with ⟨rfl, ⟨⟩⟩ | ⟨-, hk'⟩
    · rfl
    · exact absurd hjk.symm (hother c k hk' (hjk ▸ h0))
    · exact absurd hjk (hother b j hj' hj0)
    · exact h.single b c j k hj' hk' hj0 hjk

/-- The block of a process is freed. -/
theorem release (h : Owns info memBlocks) (hi : info a = some i) :
    Owns (Function.update info a (some { i with memid := -1 })) (memBlocks.erase i.memid) := by
  have hneg : ¬ (0 : SceUID) ≤ -1 := by decide
  refine ⟨h.pids_update hi rfl, fun b j hj hj0 => ?_, fun m hm => ?_, fun b c j k hj hk hj0 hjk => ?_⟩
  · rcases update_eq_some.1 hj with ⟨rfl, ⟨⟩⟩ | ⟨hb, hj'⟩
    · exact absurd hj0 hneg
    obtain ⟨hbase, hm⟩ := h.base b j hj' hj0
    exact ⟨hbase, Finset.mem_erase.2 ⟨fun he => hb (h.single b a j i hj' hi hj0 he), hm⟩⟩
  · obtain ⟨hne, hm⟩ := Finset.mem_erase.1 hm
    obtain ⟨hm0, b, j, hj, rfl⟩ := h.owner m hm
    refine ⟨hm0, b, j, update_eq_some.2 (.inr ⟨?_, hj⟩), rfl⟩
    rintro rfl
    obtain rfl := Option.some.inj (hi.symm.trans hj)
    exact hne rfl
  · rcases update_eq_some.1 hj with ⟨rfl, ⟨⟩⟩ | ⟨-, hj'⟩
    · exact absurd hj0 hneg
    rcases update_eq_some.1 hk with ⟨rfl, ⟨⟩⟩ | ⟨-, hk'⟩
    · rw [hjk] at hj0
      exact absurd hj0 hneg
    · exact h.single b c j k hj' hk' hj0 hjk

/-- A process without a block goes. -/
theorem remove (h : Owns info memBlocks) (hi : info a = some i) (hneg : i.memid < 0) :
    Owns (Function.update info a none) memBlocks := by
  have hsome : ∀ b j, Function.update info a none b = some j → info b = some j := by
    intro b j hj
    rcases update_eq_some.1 hj with ⟨-, hj⟩ | ⟨-, hj⟩
    · cases hj
    · exact hj
  refine ⟨fun b c j k hj hk => h.pids b c j k (hsome b j hj) (hsome c k hk), fun b j hj => h.base b j (hsome b j hj),
    fun m hm => ?_, fun b c j k hj hk => h.single b c j k (hsome b j hj) (hsome c k hk)⟩
  obtain ⟨hm0, b, j, hj, rfl⟩ := h.owner m hm
  refine ⟨hm0, b, j, update_eq_some.2 (.inr ⟨?_, hj⟩), rfl⟩
  rintro rfl
  obtain rfl := Option.some.inj (hi.symm.trans hj)
  exact not_neg_of_le hm0 hneg

end Owns

/-! ### The list of contexts -/

namespace ProcState
variable {s : ProcState} {pid : SceUID} {a b : Addr} {c d : FapsDmassProcessContext} {l l₁ l₂ : List Addr}
  {k : ProcAnswers}

def info (s : ProcState) (a : Addr) : Option ProcInfo :=
  (s.contexts.lookup a).map fun c => ⟨c.pid, c.memid, c.membase⟩

theorem info_of_lookup (h : s.contexts.lookup a = some c) : s.info a = some ⟨c.pid, c.memid, c.membase⟩ := by
  rw [info, h]
  rfl

theorem context_of_lookup (h : s.contexts.lookup a = some c) : s.context a = .ok c := by
  rw [context, h]

/-- The live contexts are the ones in the list `l`, and the blocks are theirs. -/
structure Inv (s : ProcState) (l : List Addr) : Prop where
  chain : Chain s.next? s.pProcContextTop l
  live : ∀ a c, s.contexts.lookup a = some c → a ∈ l
  owns : Owns s.info s.memBlocks

/-- The context `a` is in the list. -/
def Listed (s : ProcState) (a : Addr) : Prop := ∃ l, Chain s.next? s.pProcContextTop l ∧ a ∈ l

/-- A context of `pid` is in the list. -/
def HasContext (s : ProcState) (pid : SceUID) : Prop :=
  ∃ a c, s.Listed a ∧ s.contexts.lookup a = some c ∧ c.pid = pid

theorem inv_start : start.Inv [] := by
  have hnone : ∀ a, start.contexts.lookup a = none := fun a => Finmap.lookup_empty a
  refine ⟨rfl, fun a c hc => ?_, ?_⟩
  · cases (hnone a).symm.trans hc
  · have hinfo : start.info = fun _ => none := funext fun a => by rw [info, hnone]; rfl
    rw [hinfo]
    exact .empty

namespace Inv

theorem listed_iff (h : s.Inv l) : s.Listed a ↔ a ∈ l := by
  constructor
  · rintro ⟨l', hl', ha⟩
    rwa [← hl'.unique h.chain]
  · exact fun ha => ⟨l, h.chain, ha⟩

theorem lookup_mem (h : s.Inv l) (ha : a ∈ l) : ∃ c, s.contexts.lookup a = some c := by
  obtain ⟨q, hq⟩ := h.chain.live ha
  obtain ⟨c, hc, -⟩ := Option.map_eq_some_iff.1 hq
  exact ⟨c, hc⟩

/-- The loop finds the context of `pid`, if there is one. -/
theorem findContext (h : s.Inv l) (pid : SceUID) :
    (¬ s.HasContext pid ∧ s.findContext pid = .ok none) ∨
    ∃ l₁ a l₂ c, l = l₁ ++ a :: l₂ ∧ s.contexts.lookup a = some c ∧ c.pid = pid ∧
      s.findContext pid = .ok (some (l₁.getLast?, a)) := by
  have hfind : s.findContext pid =
      .ok (linkOf (fun a => (s.contexts.lookup a).any fun c => pid = c.pid) none l) := by
    refine findLink_chain h.chain (fun a _ q hq => ?_) (Chain.length_le h.chain fun a ha => ?_)
    · obtain ⟨c, hc, rfl⟩ := Option.map_eq_some_iff.1 hq
      rw [peekPid, hc, Option.any_some]
    · exact Finmap.mem_keys.2 (Finmap.mem_iff.2 (h.lookup_mem ha))
  rw [hfind]
  cases hl : linkOf (fun a => (s.contexts.lookup a).any fun c => pid = c.pid) none l with
  | none =>
    refine .inl ⟨?_, rfl⟩
    rintro ⟨a, c, ha, hc, rfl⟩
    have := linkOf_eq_none.1 hl a (h.listed_iff.1 ha)
    rw [hc] at this
    simp at this
  | some pa =>
    obtain ⟨p, a⟩ := pa
    obtain ⟨l₁, l₂, rfl, -, ha, hp⟩ := linkOf_eq_some.1 hl
    obtain ⟨c, hc⟩ := h.lookup_mem (a := a) (by simp)
    rw [hc, Option.any_some, decide_eq_true_eq] at ha
    rw [Option.or_none] at hp
    exact .inr ⟨l₁, a, l₂, c, rfl, hc, ha.symm, by rw [hp]⟩

theorem hasContext (h : s.Inv l) (hc : s.contexts.lookup a = some c) : s.HasContext c.pid :=
  ⟨a, c, h.listed_iff.2 (h.live a c hc), hc, rfl⟩

theorem search (h : s.Inv l) (pid : SceUID) :
    (¬ s.HasContext pid ∧ dmassSearchProcContext pid s = .ok none) ∨
    ∃ a c, s.contexts.lookup a = some c ∧ c.pid = pid ∧ dmassSearchProcContext pid s = .ok (some a) := by
  unfold dmassSearchProcContext
  rcases h.findContext pid with ⟨hno, hf⟩ | ⟨l₁, a, l₂, c, -, hc, hp, hf⟩ <;> rw [hf]
  · exact .inl ⟨hno, rfl⟩
  · exact .inr ⟨a, c, hc, hp, rfl⟩

theorem push (h : s.Inv l) {blocks : Finset SceUID} (ha : s.contexts.lookup a = none)
    (hnext : c.next = s.pProcContextTop)
    (howns : Owns (Function.update s.info a (some ⟨c.pid, c.memid, c.membase⟩)) blocks) :
    Inv ⟨s.contexts.insert a c, some a, blocks⟩ (a :: l) := by
  have hal : a ∉ l := by
    intro hal
    obtain ⟨d, hd⟩ := h.lookup_mem hal
    cases ha.symm.trans hd
  have hinfo : (⟨s.contexts.insert a c, some a, blocks⟩ : ProcState).info =
      Function.update s.info a (some ⟨c.pid, c.memid, c.membase⟩) := by
    funext b
    rw [info, lookup_insert_ite, Function.update_apply]
    split <;> rfl
  refine ⟨h.chain.push hal ?_ fun b hb => ?_, fun b d hd => ?_, hinfo ▸ howns⟩
  · rw [next?, lookup_insert_ite, if_pos rfl, ← hnext]
    rfl
  · rw [next?, lookup_insert_ite, if_neg hb]
    rfl
  · rw [lookup_insert_ite] at hd
    split at hd
    · subst b
      exact List.mem_cons_self
    · exact List.mem_cons_of_mem _ (h.live b d hd)

end Inv

/-- `dmass_create_proc_context` makes a context of `pid`: none is listed and there is a block for it. -/
def CreatesContext (k : ProcAnswers) (pid : SceUID) (s : ProcState) : Prop :=
  ¬ s.HasContext pid ∧ (k.malloc s.contexts.keys).isSome

theorem Inv.createProcContext (h : s.Inv l) (k : ProcAnswers) (pid : SceUID) :
    (¬ CreatesContext k pid s ∧ ∃ r < 0, dmassCreateProcContext k pid s = .ok (r, none, s)) ∨
    (CreatesContext k pid s ∧ ∃ a, s.contexts.lookup a = none ∧
      dmassCreateProcContext k pid s = .ok (0, some a, { s with
        contexts := s.contexts.insert a ⟨s.pProcContextTop, pid, k.leftover.1, k.leftover.2⟩
        pProcContextTop := some a })) := by
  unfold CreatesContext dmassCreateProcContext
  rcases h.search pid with ⟨hno, hs⟩ | ⟨a, c, hc, rfl, hs⟩ <;> rw [hs, ok_bind] <;> dsimp only
  · cases k.malloc s.contexts.keys with
    | none => exact .inl ⟨by simp, -2, by decide, rfl⟩
    | some x =>
      obtain ⟨a, ha⟩ := x
      exact .inr ⟨⟨hno, rfl⟩, a, Finmap.lookup_eq_none.2 fun hmem => ha (Finmap.mem_keys.2 hmem), rfl⟩
  · exact .inl ⟨fun hno => hno.1 (h.hasContext hc), -1, by decide, rfl⟩

/-- The handler of a created process returns exactly when it has got a context. -/
theorem Inv.create (h : s.Inv l) (k : ProcAnswers) (pid : SceUID) :
    (¬ CreatesContext k pid s ∧ dmassCreateProcessResource k pid s = .error .indeterminate) ∨
    (CreatesContext k pid s ∧ ∃ s' l', dmassCreateProcessResource k pid s = .ok (0, s') ∧ s'.Inv l') := by
  unfold dmassCreateProcessResource
  rcases h.createProcContext k pid with ⟨hno, r, -, hc⟩ | ⟨hmakes, a, ha, hc⟩ <;> rw [hc, ok_bind] <;> dsimp only
  · exact .inl ⟨hno, rfl⟩
  refine .inr ⟨hmakes, ?_⟩
  have hinfo : s.info a = none := by rw [info, ha]; rfl
  have hpid : ∀ b i, s.info b = some i → i.pid ≠ pid := by
    rintro b i hi rfl
    obtain ⟨d, hd, rfl⟩ := Option.map_eq_some_iff.1 hi
    exact hmakes.1 (h.hasContext hd)
  rw [context_of_lookup (Finmap.lookup_insert _), ok_bind]
  cases k.allocMemBlock s.memBlocks with
  | error res =>
    refine ⟨_, a :: l, rfl, ?_⟩
    unfold modContext
    dsimp only
    rw [modifyAt_insert]
    exact h.push ha rfl (h.owns.add hpid hinfo res.2)
  | ok memid =>
    refine ⟨_, a :: l, rfl, ?_⟩
    unfold modContext
    dsimp only
    rw [modifyAt_insert]
    refine h.push ha rfl ?_
    have hneg : (-1 : SceUID) < 0 := by decide
    have hadd := h.owns.add (n := ⟨pid, -1, .null⟩) hpid hinfo hneg
    have hget := hadd.acquire (Function.update_self ..) hneg memid.2.1 memid.2.2
    rwa [Function.update_idem] at hget

/-! ### The end of a process -/

theorem wipeKernelMemory_cases (h : s.Inv l) :
    wipeKernelMemory s = .ok () ∨ wipeKernelMemory s = .error .wild := by
  unfold wipeKernelMemory
  rcases h.search SCE_GUID_KERNEL_PROCESS_ID with ⟨-, hs⟩ | ⟨a, c, hc, -, hs⟩ <;> rw [hs, ok_bind] <;> dsimp only
  · exact .inl rfl
  rw [context_of_lookup hc, ok_bind]
  split
  · unfold memset
    split
    · split
      · exact .inl rfl
      · exact .inr rfl
    · exact .inr rfl
  · exact .inl rfl

/-- The block of the context `a` is freed, once. -/
theorem Inv.release (h : s.Inv l) (hc : s.contexts.lookup a = some c) : ∃ s', releaseMemory a s = .ok s' ∧ s'.Inv l ∧
    ∃ c', s'.contexts.lookup a = some c' ∧ c'.pid = c.pid ∧ c'.memid < 0 := by
  unfold releaseMemory
  rw [context_of_lookup hc, ok_bind]
  by_cases h0 : 0 ≤ c.memid
  · obtain ⟨hbase, hmem⟩ := h.owns.base a _ (info_of_lookup hc) h0
    have hset : s.memset c.membase = .ok () := by
      rw [show c.membase = .base c.memid from hbase, memset, if_pos hmem]
    have hfree : s.freeMemBlock c.memid = .ok { s with memBlocks := s.memBlocks.erase c.memid } := if_pos hmem
    rw [if_pos h0, hset, ok_bind, hfree, ok_bind]
    have hlookup : ∀ b, (modifyAt s.contexts a fun c => { c with memid := -1 }).lookup b =
        if b = a then some { c with memid := -1 } else s.contexts.lookup b := by
      intro b
      rw [lookup_modifyAt, hc]
      rfl
    have hinfo : info { s with
        contexts := modifyAt s.contexts a fun c => { c with memid := -1 }, memBlocks := s.memBlocks.erase c.memid } =
        Function.update s.info a (some ⟨c.pid, -1, c.membase⟩) := by
      funext b
      rw [info, hlookup, Function.update_apply, info]
      split <;> rfl
    have hneg : (-1 : SceUID) < 0 := by decide
    refine ⟨_, rfl, ⟨h.chain.congr fun b _ => ?_, fun b d hd => ?_, ?_⟩, _, (hlookup a).trans (if_pos rfl), rfl, hneg⟩
    · show ((modifyAt s.contexts a fun c => { c with memid := -1 }).lookup b).map _ = _
      rw [hlookup, next?]
      split
      · subst b
        rw [hc]
        rfl
      · rfl
    · have hd' := (hlookup b).symm.trans hd
      split at hd'
      · subst b
        exact h.live a c hc
      · exact h.live b d hd'
    · exact hinfo ▸ h.owns.release (info_of_lookup hc)
  · rw [if_neg h0]
    exact ⟨s, rfl, h, c, hc, rfl, Int32.not_le.1 h0⟩

/-- The contexts after `dmass_delete_proc_context` has freed `a`. -/
def unlinked (s : ProcState) (pred : Option Addr) (a : Addr) (q : Option Addr) : ProcState := { s with
  contexts := (relink (fun q c => { c with next := q }) s.contexts pred q).erase a
  pProcContextTop := if pred = none then q else s.pProcContextTop }

theorem info_unlinked {pred q : Option Addr} : (s.unlinked pred a q).info = Function.update s.info a none := by
  funext b
  rw [info, unlinked, lookup_relink_erase, Function.update_apply, info]
  split
  · rfl
  split
  · rw [Option.map_map]
    rfl
  · rfl

theorem lookup_unlinked {pred q : Option Addr} {b : Addr} {d : FapsDmassProcessContext}
    (hd : (s.unlinked pred a q).contexts.lookup b = some d) : b ≠ a ∧ ∃ d', s.contexts.lookup b = some d' := by
  rw [unlinked, lookup_relink_erase] at hd
  split at hd
  · cases hd
  refine ⟨‹_›, ?_⟩
  split at hd
  · obtain ⟨d', hd', -⟩ := Option.map_eq_some_iff.1 hd
    exact ⟨d', hd'⟩
  · exact ⟨d, hd⟩

/-- The context of `pid` is unlinked and freed; it has no block any more. -/
theorem Inv.deleteProcContext (h : s.Inv l) (hc : s.contexts.lookup a = some c) (hneg : c.memid < 0) :
    ∃ s' l', dmassDeleteProcContext c.pid s = .ok (0, s') ∧ s'.Inv l' := by
  unfold dmassDeleteProcContext
  rcases h.findContext c.pid with ⟨hno, -⟩ | ⟨l₁, a', l₂, c', rfl, hc', hp, hf⟩
  · exact absurd (h.hasContext hc) hno
  obtain rfl : a = a' := h.owns.pids a a' _ _ (info_of_lookup hc) (info_of_lookup hc') hp.symm
  obtain rfl := Option.some.inj (hc.symm.trans hc')
  rw [hf, ok_bind]
  dsimp only
  rw [context_of_lookup hc, ok_bind]
  refine ⟨s.unlinked l₁.getLast? a c.next, l₁ ++ l₂, rfl, ?_, fun b d hd => ?_, ?_⟩
  · have hhead : (s.unlinked l₁.getLast? a c.next).pProcContextTop =
        if l₁ = [] then c.next else s.pProcContextTop := if_congr List.getLast?_eq_none_iff rfl rfl
    rw [hhead]
    exact chain_relink_erase (fun _ _ => rfl) h.chain hc
  · obtain ⟨hne, d', hd'⟩ := lookup_unlinked hd
    have hmem := h.live b d' hd'
    rw [List.mem_append, List.mem_cons] at hmem
    rw [List.mem_append]
    exact hmem.imp id fun hb => hb.resolve_left hne
  · rw [info_unlinked]
    exact h.owns.remove (info_of_lookup hc) hneg

/-- The end of a process: the handler returns, unless it is the `memset` that goes wrong. -/
theorem Inv.delete (h : s.Inv l) (pid : SceUID) : dmassDeleteProcessResource pid s = .error .wild ∨
    ∃ r s' l', dmassDeleteProcessResource pid s = .ok (r, s') ∧ s'.Inv l' := by
  unfold dmassDeleteProcessResource
  rcases wipeKernelMemory_cases h with hw | hw <;> rw [hw]
  · rw [ok_bind]
    rcases h.search pid with ⟨-, hs⟩ | ⟨a, c, hc, rfl, hs⟩ <;> rw [hs, ok_bind] <;> dsimp only
    · exact .inr ⟨-1, s, l, rfl, h⟩
    obtain ⟨s₁, hr, h₁, c₁, hc₁, hp, hneg⟩ := h.release hc
    obtain ⟨s₂, l₂, hd, h₂⟩ := h₁.deleteProcContext hc₁ hneg
    rw [hr, ok_bind, ← hp, hd, ok_bind]
    exact .inr ⟨0, s₂, l₂, rfl, h₂⟩
  · exact .inl rfl

/-- The list ends and holds the live contexts, at most one for a pid; a search finds exactly the listed pids; and
an allocated memory block belongs to exactly one listed context. -/
structure ContextsOk (s : ProcState) : Prop where
  ends : ∃ l, Chain s.next? s.pProcContextTop l
  live : ∀ a, (∃ c, s.contexts.lookup a = some c) ↔ s.Listed a
  onePerPid : ∀ a b c d, s.Listed a → s.Listed b → s.contexts.lookup a = some c → s.contexts.lookup b = some d →
    c.pid = d.pid → a = b
  search : ∀ pid, ∃ r, dmassSearchProcContext pid s = .ok r ∧ (r.isSome ↔ s.HasContext pid)
  blocks : ∀ m ∈ s.memBlocks, ∃! a, s.Listed a ∧ ∃ c, s.contexts.lookup a = some c ∧ c.memid = m

theorem Inv.contextsOk (h : s.Inv l) : s.ContextsOk := by
  refine ⟨⟨l, h.chain⟩, fun a => ?_, fun a b c d _ _ hc hd => ?_, fun pid => ?_, fun m hm => ?_⟩
  · rw [h.listed_iff]
    exact ⟨fun ⟨c, hc⟩ => h.live a c hc, h.lookup_mem⟩
  · exact h.owns.pids a b _ _ (info_of_lookup hc) (info_of_lookup hd)
  · rcases h.search pid with ⟨hno, hs⟩ | ⟨a, c, hc, rfl, hs⟩
    · exact ⟨none, hs, by simpa using hno⟩
    · exact ⟨some a, hs, by simpa using h.hasContext hc⟩
  · obtain ⟨h0, a, i, hi, rfl⟩ := h.owns.owner m hm
    obtain ⟨c, hc, rfl⟩ := Option.map_eq_some_iff.1 hi
    refine ⟨a, ⟨h.listed_iff.2 (h.live a c hc), c, hc, rfl⟩, ?_⟩
    rintro b ⟨-, d, hd, hm'⟩
    exact (h.owns.single a b _ _ (info_of_lookup hc) (info_of_lookup hd) h0 hm'.symm).symm

end ProcState

/-! ### Runs of events -/

open ProcState

/-- A created process gets a context: its pid is not listed yet, and `dmass_malloc` gives a block. -/
def ProcEvent.getsContext (s : ProcState) : ProcEvent → Prop
  | .create k pid => CreatesContext k pid s
  | .exit _ => True
  | .kill _ => True

/-- An event follows a pointer that is not to a listed context, or frees a block that is not allocated. -/
def Misuses (x : Except ProcFault (Int × ProcState)) : Prop := ∃ e, x = .error e ∧ e ≠ .wild

section
variable {s s' : ProcState} {ev : ProcEvent} {evs : List ProcEvent} {l : List Addr}

theorem exec_cases (h : s.Inv l) (ev : ProcEvent) :
    (¬ ev.getsContext s ∧ ev.exec s = .error .indeterminate) ∨
    (ev.getsContext s ∧ (ev.exec s = .error .wild ∨ ∃ s' l', ev.exec s = .ok (0, s') ∧ s'.Inv l')) := by
  have hdelete : ∀ pid, dmassProcExit pid s = .error .wild ∨ ∃ s' l', dmassProcExit pid s = .ok (0, s') ∧ s'.Inv l' := by
    intro pid
    unfold dmassProcExit
    rcases h.delete pid with hd | ⟨r, s', l', hd, h'⟩ <;> rw [hd]
    · exact .inl rfl
    · exact .inr ⟨s', l', rfl, h'⟩
  cases ev with
  | create k pid =>
    have hcreate : (¬ CreatesContext k pid s ∧ dmassProcCreate k pid s = .error .indeterminate) ∨
        (CreatesContext k pid s ∧ ∃ s' l', dmassProcCreate k pid s = .ok (0, s') ∧ s'.Inv l') := by
      unfold dmassProcCreate
      rcases h.create k pid with ⟨hno, hc⟩ | ⟨hgets, s', l', hc, h'⟩ <;> rw [hc]
      · exact .inl ⟨hno, rfl⟩
      · exact .inr ⟨hgets, s', l', rfl, h'⟩
    exact hcreate.imp id (And.imp id .inr)
  | exit pid => exact .inr ⟨trivial, hdelete pid⟩
  | kill pid => exact .inr ⟨trivial, hdelete pid⟩

theorem inv_step (h : s.Inv l) (hs : ProcStep s ev s') : ∃ l', s'.Inv l' := by
  obtain ⟨r, hs⟩ := hs
  rcases exec_cases h ev with ⟨-, he⟩ | ⟨-, he | ⟨t, l', he, h'⟩⟩ <;> cases hs.symm.trans he
  exact ⟨l', h'⟩

/-- In every run of events the contexts and their blocks are in order, and the next event goes wrong exactly when
it creates a process that does not get a context. -/
theorem processRun_iff (h : Run ProcStep .start evs s) :
    s.ContextsOk ∧ ∀ ev : ProcEvent, ¬ Misuses (ev.exec s) ↔ ev.getsContext s := by
  obtain ⟨l, hI⟩ := h.invariant (I := fun s => ∃ l, s.Inv l) (fun _ _ _ ⟨_, hI⟩ hs => inv_step hI hs) ⟨[], inv_start⟩
  refine ⟨hI.contextsOk, fun ev => ?_⟩
  unfold Misuses
  rcases exec_cases hI ev with ⟨hno, he⟩ | ⟨hgets, he | ⟨s', l', he, -⟩⟩ <;> rw [he]
  · exact iff_of_false (fun h => h ⟨_, rfl, ProcFault.noConfusion⟩) hno
  · refine iff_of_true ?_ hgets
    rintro ⟨e, hx, hne⟩
    cases hx
    exact hne rfl
  · refine iff_of_true ?_ hgets
    rintro ⟨e, hx, -⟩
    cases hx

/-- Allocations succeed, and the memory block is `memid`. -/
def blockOf (memid : { m : SceUID // 0 ≤ m }) : ProcAnswers where
  malloc L := some (above L)
  leftover := (0, .elsewhere)
  allocMemBlock L := if h : memid.1 ∈ L then .error ⟨-1, by decide⟩ else .ok ⟨memid.1, memid.2, h⟩

/-- `dmass_malloc` has nothing left. -/
def noContext : ProcAnswers := { blockOf ⟨5, by decide⟩ with malloc := fun _ => none }

theorem processRun_iff_twoProcesses : ∃ s, Run ProcStep .start
    [.create (blockOf ⟨5, by decide⟩) 1, .create (blockOf ⟨6, by decide⟩) 2, .exit 1] s ∧
    s.ContextsOk ∧ ¬ Misuses ((ProcEvent.create (blockOf ⟨7, by decide⟩) 1).exec s) := by
  have h₀ : Run ProcStep .start [] .start := .nil _
  have h₁ := h₀.snoc (l := .create (blockOf ⟨5, by decide⟩) 1) ⟨0, rfl⟩
  have h₂ := h₁.snoc (l := .create (blockOf ⟨6, by decide⟩) 2) ⟨0, rfl⟩
  have h₃ := h₂.snoc (l := .exit 1) ⟨0, rfl⟩
  obtain ⟨hok, hnext⟩ := processRun_iff h₃
  refine ⟨_, h₃, hok, (hnext _).2 ⟨?_, rfl⟩⟩
  obtain ⟨r, hr, hiff⟩ := hok.search 1
  change Except.ok none = Except.ok r at hr
  cases hr
  simpa using hiff

/-- A process that is created twice, and one whose context cannot be allocated. -/
theorem misuses_createdTwice :
    (∃ s, Run ProcStep .start [.create (blockOf ⟨5, by decide⟩) 1] s ∧
      (ProcEvent.create (blockOf ⟨6, by decide⟩) 1).exec s = .error .indeterminate) ∧
    (ProcEvent.create noContext 1).exec .start = .error .indeterminate := by
  have h₀ : Run ProcStep .start [] .start := .nil _
  have h₁ := h₀.snoc (l := .create (blockOf ⟨5, by decide⟩) 1) ⟨0, rfl⟩
  exact ⟨⟨_, h₁, rfl⟩, rfl⟩

end

end VitaUtility.Dmass
