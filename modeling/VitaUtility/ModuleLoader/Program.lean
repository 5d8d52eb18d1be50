import VitaUtility.ModuleLoader.Console
import VitaUtility.ModuleLoader.Scan

/-!
# The program

`module_start` of `kernel_module_loader` from its scan to the end of the console, with all that it prints and loads. It
does what a table of paths would do in which a line of the console names a row: the list, its addresses and the
buffer are not seen from outside.
-/

namespace VitaUtility.ModuleLoader

/-- What goes out of the program. -/
inductive Event where
  /-- `"%-4d %s\n"` -/
  | listed (number : UInt32) (path : CStr)
  /-- `"no modules\n"` -/
  | noModules
  /-- `"No devkit. load to first module."` and `"-> %s\n"` -/
  | noDevkit (path : CStr)
  /-- the commands of the console -/
  | commands
  /-- `taiLoadStartKernelModule` -/
  | loadStart (path : CStr)
  /-- `"taiLoadStartKernelModule 0x%X for (%s)\n"` -/
  | loadFailed (modid : Int32) (path : CStr)
  /-- `"not found module\n"` -/
  | notFound
  /-- `"0x%X\n"` -/
  | code (modid : Int32)
  /-- `"All done. exiting...\n"` -/
  | allDone
  /-- `"sceAppMgrDestroyAppByAppId 0x%X\n"` -/
  | destroyFailed (res : Int32)
deriving DecidableEq

/-- `param->modid = taiLoadStartKernelModule(param->path, ..)` -/
def loadStart (s : State) (a : Nat) (modid : Int32) : Except Fault (State × CStr) :=
  match s.nodes a with
  | none => .error .dangling
  | some param => .ok (s.setModid a modid, param.path)

/-- The command `load`. -/
def loadPath (s : State) (path : CStr) (modid : Int32) (n : Nat) : Except Fault (State × List Event) := do
  match ← saerchModuleEntry s path n with
  | none => .ok (s, [.notFound])
  | some a => do
    let (s, path) ← loadStart s a modid
    .ok (s, [.loadStart path])

/-- The command `load_by_number`; `number₀` is what is in `number` before. -/
def loadNumber (s : State) (arg : CStr) (number₀ : UInt32) (modid : Int32) (n : Nat) :
    Except Fault (State × List Event) := do
  let (res, number) := cvtStrToDec (some arg) number₀
  if res < 0 then .ok (s, []) else
  match ← saerchModuleEntryByNumber s number n with
  | none => .ok (s, [.notFound])
  | some a => do
    let (s, path) ← loadStart s a modid
    .ok (s, .loadStart path :: if modid < 0 then [.code modid] else [])

/-- An iteration that does not leave the loop. -/
def Input.step (x : Input) (s : State) (n : Nat) : Except Fault (State × List Event) :=
  match x.command with
  | .load => do
    let path ← x.string 5
    loadPath s path x.modid n
  | .loadByNumber => do
    let arg ← x.string 15
    loadNumber s arg x.number₀ x.modid n
  | _ => .ok (s, [])

/-- The loop of `tty_in_thread`, and whether it has been left. -/
def ttyLoop (n : Nat) : State → List Input → Except Fault (State × List Event × Bool)
  | s, [] => .ok (s, [], false)
  | s, x :: xs =>
    if x.command = .exit then .ok (s, [], true) else do
    let (s, es) ← x.step s n
    let (s, es', left) ← ttyLoop n s xs
    .ok (s, es ++ es', left)

/-- What the kernel answers to the program. -/
structure Answers where
  dir : DirAnswers
  /-- the answers in the calls of `load_module_add_path` for the five paths -/
  fd : Nat → Int32
  param : Nat → Option Nat
  tmpPath : Nat → Bool
  /-- `taiLoadStartKernelModule` of the first module -/
  first : Int32
  /-- `_vshKernelSearchModuleByName` of `SceDeci4pSTtyp` -/
  searchModid : Int32
  /-- whether the thread of the console runs -/
  thread : Bool
  inputs : List Input
  /-- `sceAppMgrDestroyAppByAppId` -/
  destroy : Int32

def modulesDir : CStr := literal "host0:data/kernel_modules"

def fixedPaths : List CStr := [literal "host0:module.skprx", literal "host0:baremetal-loader.skprx",
  literal "host0:kbl-loader.skprx", literal "ux0:module.skprx", literal "ux0:kbl-loader.skprx"]

/-- The calls for the five paths. -/
def Answers.fixedCalls (k : Answers) : List AddCall :=
  fixedPaths.zipIdx.map fun (path, i) => ⟨some path, k.fd i, k.param i, k.tmpPath i⟩

/-- The loop that prints the list, over at most `n` entries. -/
def listLoop (s : State) : Nat → Option Nat → Except Fault (List Event)
  | _, none => .ok []
  | 0, some _ => .error .hang
  | n + 1, some a =>
    match s.nodes a with
    | none => .error .dangling
    | some param => do
      let es ← listLoop s n param.next
      .ok (.listed param.number param.path :: es)

/-- `load_first_module` -/
def loadFirstModule (s : State) (a : Nat) (modid : Int32) : Except Fault (State × List Event) := do
  let (s, path) ← loadStart s a modid
  .ok (s, .loadStart path :: if modid < 0 then [.loadFailed modid path] else [])

/-- `exit_app` -/
def exitApp (destroy : Int32) : List Event := .allDone :: if destroy < 0 then [.destroyFailed destroy] else []

/-- What is done after the listing; `a` is the first module. -/
def startModules (k : Answers) (n : Nat) (s : State) (a : Nat) : Except Fault (State × List Event) :=
  if s.moduleNum = 1 then do
    let (s, es) ← loadFirstModule s a k.first
    .ok (s, es ++ exitApp k.destroy)
  else if k.searchModid < 0 then
    match s.nodes a with
    | none => .error .dangling
    | some param => do
      let (s, es) ← loadFirstModule s a k.first
      .ok (s, .noDevkit param.path :: (es ++ exitApp k.destroy))
  else if k.thread then do
    let (s, es, left) ← ttyLoop n s k.inputs
    .ok (s, .commands :: (es ++ if left then exitApp k.destroy else []))
  else .ok (s, exitApp k.destroy)

/-- What is done with the list that the calls have made. -/
def listAndStart (k : Answers) (n : Nat) (s : State) : Except Fault (State × List Event) := do
  let listing ← listLoop s n s.pModuleLoadParamTree
  match s.pModuleLoadParamTree with
  | none => .ok (s, listing ++ .noModules :: exitApp k.destroy)
  | some a => do
    let (s, es) ← startModules k n s a
    .ok (s, listing ++ es)

/-- `module_start`, with at most `fuel` rounds of the scan and `n` entries in the list. -/
def moduleStart (k : Answers) (fuel n : Nat) : Except Fault (State × List Event) :=
  match loadModuleAddPathByDir k.dir modulesDir fuel World.init.state with
  | none => .error .hang
  | some (_res, _calls, s) => listAndStart k n (addAll s k.fixedCalls)

/-! ### The table -/

/-- A module that can be loaded, and the answer to its last load. -/
structure Row where
  path : CStr
  modid : Int32

/-- The modules, by their numbers. -/
abbrev Table := List Row

/-- What a line asks for. -/
inductive Request where
  | path (path : CStr)
  | number (v : Nat)
  | exit
  | nothing
deriving DecidableEq

/-- The request of a line. -/
def request (line : CStr) : Request :=
  let bytes := line.map Subtype.val
  if loadWord <+: bytes then .path (line.drop 5)
  else if loadByNumberWord <+: bytes then
    if line.drop 15 ≠ [] ∧ (line.drop 15).all (IsDigit ·) then .number (valueFrom 0 (line.drop 15)) else .nothing
  else if exitWord <+: bytes then .exit
  else .nothing

namespace Table

/-- The last row with the path. -/
def rowOf (t : Table) (path : CStr) : Option Nat :=
  (List.range t.length).reverse.find? fun i => t[i]?.map Row.path = some path

/-- The row `i` has been loaded. -/
def load (t : Table) (i : Nat) (modid : Int32) : Table := t.modify i ({ · with modid })

/-- A request but `exit`, with the answer to the load that it leads to; numbers count modulo `2 ^ 32`. -/
def serve (t : Table) (r : Request) (modid : Int32) : Table × List Event :=
  match r with
  | .path path =>
    match t.rowOf path with
    | none => (t, [.notFound])
    | some i => (t.load i modid, [.loadStart path])
  | .number v =>
    match t[v % 2 ^ 32]? with
    | none => (t, [.notFound])
    | some row => (t.load (v % 2 ^ 32) modid, .loadStart row.path :: if modid < 0 then [.code modid] else [])
  | _ => (t, [])

/-- A session of the console, and whether it has come to an `exit`. -/
def session : Table → List (Request × Int32) → Table × List Event × Bool
  | t, [] => (t, [], false)
  | t, (r, modid) :: xs =>
    if r = .exit then (t, [], true) else
    let (t, es) := t.serve r modid
    let (t, es', left) := session t xs
    (t, es ++ es', left)

/-- The last row is the first module. -/
def loadLast (t : Table) (row : Row) (modid : Int32) : Table × List Event :=
  (t.load (t.length - 1) modid, .loadStart row.path :: if modid < 0 then [.loadFailed modid row.path] else [])

/-- What is done with a table after the listing, where `row` is its last one. -/
def start (t : Table) (row : Row) (k : Answers) (requests : List (Request × Int32)) : Table × List Event :=
  if t.length = 1 then ((t.loadLast row k.first).1, (t.loadLast row k.first).2 ++ exitApp k.destroy)
  else if k.searchModid < 0 then
    ((t.loadLast row k.first).1, .noDevkit row.path :: ((t.loadLast row k.first).2 ++ exitApp k.destroy))
  else if k.thread then
    let (t, es, left) := t.session requests
    (t, .commands :: (es ++ if left then exitApp k.destroy else []))
  else (t, exitApp k.destroy)

/-- The rows from the last one on. -/
def listing (t : Table) : List Event := t.zipIdx.reverse.map fun (row, i) => .listed (UInt32.ofNat i) row.path

/-- What the program does with a table. -/
def program (t : Table) (k : Answers) (requests : List (Request × Int32)) : Table × List Event :=
  match t.getLast? with
  | none => (t, t.listing ++ .noModules :: exitApp k.destroy)
  | some row => ((t.start row k requests).1, t.listing ++ (t.start row k requests).2)

end Table

/-- The line that was typed; the last character of it is cut off. -/
def Input.line (x : Input) : CStr := cstr (fill x.bytes (x.res.toInt.toNat - 1))

/-- The row of a call, if it adds an entry. -/
def AddCall.row? (c : AddCall) : Option Row :=
  match c.path, c.param with
  | some path, some _ => if c.fd < 0 ∨ path = [] ∨ c.tmpPath = false then none else some ⟨path, -1⟩
  | _, _ => none

/-- The calls that add an entry. -/
def adding (calls : List AddCall) : List AddCall := calls.filter fun c => c.row?.isSome

/-- The rows of the calls. -/
def tableOf (calls : List AddCall) : Table := calls.filterMap AddCall.row?

/-- The block of an entry in the list is not given out again. -/
def MallocFresh (calls : List AddCall) : Prop :=
  calls.Pairwise fun c c' => c.row?.isSome → c'.param ≠ c.param

instance (calls : List AddCall) : Decidable (MallocFresh calls) := inferInstanceAs (Decidable (calls.Pairwise _))

/-- The list has the rows of the table, under their numbers; `added` are the calls that made them. -/
structure Shows (s : State) (added : List AddCall) (t : Table) : Prop where
  numbered : Numbered s added
  length : t.length = added.length
  row : ∀ i c a param, added[i]? = some c → EntryOf s c i a param → t[i]? = some ⟨param.path, param.modid⟩

/-! ### The buffer and the line -/

section
variable {x : Input} {m : Mem} {w : List UInt8} {s : CStr} {n : Nat}

theorem startsWith_iff (h : strAt m n 0 = some s) (hw : ∀ c ∈ w, c ≠ 0) :
    startsWith m w ↔ w <+: s.map Subtype.val := by
  have hget : ∀ i ≤ s.length, m i = (s[i]?.map Subtype.val).getD 0 := fun i hi => by
    simpa using strAt_get h hi
  rw [startsWith, decide_eq_true_iff, List.prefix_iff_getElem?]
  constructor
  · intro heq i hi
    have hm : ∀ j, (hj : j < w.length) → m j = w[j] := by
      intro j hj
      have := congrArg (·[j]?) heq
      simpa [fill, hj] using this
    have hlt : ∀ j < w.length, j < s.length := by
      intro j hj
      induction j with
      | zero =>
        refine Nat.pos_of_ne_zero fun h0 => hw _ (List.getElem_mem hj) ?_
        rw [← hm 0 hj, hget 0 (Nat.zero_le _), List.getElem?_eq_none (by omega)]
        rfl
      | succ j ih =>
        have hle := ih (by omega)
        refine Nat.lt_of_le_of_ne hle fun heq => hw _ (List.getElem_mem hj) ?_
        rw [← hm (j + 1) hj, hget (j + 1) hle, List.getElem?_eq_none (by omega)]
        rfl
    have hi' := hlt i hi
    have hmi := hget i (by omega)
    rw [hm i hi, List.getElem?_eq_getElem hi'] at hmi
    rw [List.getElem?_map, List.getElem?_eq_getElem hi', hmi]
    rfl
  · intro hpre
    refine List.ext_getElem? fun i => ?_
    by_cases hi : i < w.length
    · have hs := hpre i hi
      rw [List.getElem?_map, Option.map_eq_some_iff] at hs
      obtain ⟨c, hc, hval⟩ := hs
      have hlt := (List.getElem?_eq_some_iff.1 hc).1
      have hmi := hget i (by omega)
      rw [hc] at hmi
      simp [fill, hi, hmi, hval]
    · simp [fill, hi]

/-- The buffer holds the line, and then a NUL. -/
theorem strAt_buf (h : x.res.toInt ≤ 0x7F) : strAt x.buf ttyBufSize 0 = some x.line := by
  refine strAt_cstr (fun i c hi => ?_) ?_ ?_
  · have hlt := (List.getElem?_eq_some_iff.1 hi).1
    rw [length_fill] at hlt
    simp only [fill, List.getElem?_map, List.getElem?_range hlt, Option.map_some, Option.some.injEq] at hi
    subst hi
    rw [Nat.zero_add, Input.buf, if_neg (by omega), if_pos (by omega)]
  · rw [Nat.zero_add, length_fill, Input.buf]
    by_cases hpos : 1 ≤ x.res.toInt
    · rw [if_pos (by omega)]
    · rw [if_neg (by omega), if_neg (by omega)]
  · rw [length_fill]
    unfold ttyBufSize
    omega

/-- The branch of an iteration goes by the line. -/
theorem command_eq (h : x.res.toInt ≤ 0x7F) : x.command =
    if loadWord <+: x.line.map Subtype.val then .load
    else if loadByNumberWord <+: x.line.map Subtype.val then .loadByNumber
    else if exitWord <+: x.line.map Subtype.val then .exit
    else .other := by
  have hbuf := strAt_buf h
  have hload := startsWith_iff hbuf (w := loadWord) (by simp [loadWord])
  have hnumber := startsWith_iff hbuf (w := loadByNumberWord) (by simp [loadByNumberWord])
  have hexit := startsWith_iff hbuf (w := exitWord) (by simp [exitWord])
  unfold Input.command
  simp only [hload, hnumber, hexit]
  by_cases hneg : x.res < 0
  · have hline : x.line = [] := by
      have hlt := Int32.lt_iff_toInt_lt.1 hneg
      rw [Int32.toInt_zero] at hlt
      rw [Input.line, show x.res.toInt.toNat - 1 = 0 by omega]
      rfl
    rw [if_pos hneg, hline]
    rfl
  · rw [if_neg hneg]

theorem string_eq {o : Nat} (h : x.res.toInt ≤ 0x7F) (ho : o ≤ x.line.length) :
    x.string o = .ok (x.line.drop o) := by
  have hdrop := strAt_drop (strAt_buf h) ho
  rw [Nat.zero_add] at hdrop
  rw [Input.string, hdrop]

theorem length_le_of_startsWith (h : w <+: s.map Subtype.val) : w.length ≤ s.length := by
  simpa using h.length_le

end

/-! ### Calls and rows -/

section
variable {s s' : State} {c : AddCall} {calls added : List AddCall} {a i n : Nat} {t : Table} {path : CStr} {row : Row}
  {modid : Int32}

/-- A call without a row changes nothing; one with a row puts its entry in front of the list. -/
theorem loadModuleAddPath_row (s : State) (c : AddCall) :
    (c.row? = none ∧ (loadModuleAddPath s c).2 = s) ∨
    ∃ a path, c.row? = some ⟨path, -1⟩ ∧ c.param = some a ∧ c.path = some path ∧ loadModuleAddPath s c = (0, {
      nodes := fun b => if b = a then
          some ⟨s.pModuleLoadParamTree, path, UInt32.ofNat (path.length + 1), -1, s.moduleNum.toUInt32⟩
        else s.nodes b
      pModuleLoadParamTree := some a
      moduleNum := s.moduleNum + 1 }) := by
  unfold loadModuleAddPath AddCall.row?
  cases hpath : c.path with
  | none => exact .inl ⟨rfl, rfl⟩
  | some path =>
    cases hparam : c.param with
    | none =>
      refine .inl ⟨rfl, ?_⟩
      dsimp only
      split <;> rfl
    | some a =>
      dsimp only
      by_cases hfd : c.fd < 0
      · simp [hfd]
      by_cases hlen : path = []
      · simp [hfd, hlen]
      by_cases htmp : c.tmpPath = false
      · simp [hfd, hlen, htmp]
      · have hlen' : ¬ path.length = 0 := mt List.length_eq_zero_iff.1 hlen
        rw [if_neg (by simp [hfd, hlen, htmp]), if_neg hfd, if_neg hlen', if_neg htmp]
        exact .inr ⟨a, path, rfl, rfl, rfl, rfl⟩

theorem tableOf_append : tableOf (calls ++ [c]) = tableOf calls ++ c.row?.toList := by
  rw [tableOf, List.filterMap_append]
  cases h : c.row? <;> simp [tableOf, h]

theorem adding_append : adding (calls ++ [c]) = adding calls ++ if c.row?.isSome then [c] else [] := by
  rw [adding, List.filter_append]
  cases h : c.row?.isSome <;> simp [adding, h]

/-- A call adds its row. -/
theorem Shows.add (h : Shows s added t) (hfresh : ∀ a, c.row?.isSome → c.param = some a → s.nodes a = none) :
    Shows (loadModuleAddPath s c).2 (added ++ if c.row?.isSome then [c] else []) (t ++ c.row?.toList) := by
  rcases loadModuleAddPath_row s c with ⟨hrow, hsame⟩ | ⟨a, path, hrow, hparam, hpath, hcall⟩
  · simpa [hrow, hsame] using h
  have hnew : s.nodes a = none := hfresh a (by simp [hrow]) hparam
  have hstep : AddStep ⟨s, added⟩ c ⟨(loadModuleAddPath s c).2, added ++ [c]⟩ := by
    refine ⟨fun b hb => ?_, rfl, ?_⟩
    · rw [hparam] at hb
      cases hb
      exact hnew
    · rw [hcall, if_pos rfl]
  have hnum : Numbered (loadModuleAddPath s c).2 (added ++ [c]) := numbered_step h.numbered hstep
  rw [hrow, Option.isSome_some, if_pos rfl]
  refine ⟨hnum, by simp [h.length], fun i c' b param hi hentry => ?_⟩
  have hnode := hentry.node
  rw [hcall] at hnode
  dsimp only at hnode
  by_cases hlt : i < added.length
  · rw [List.getElem?_append_left hlt] at hi
    rw [List.getElem?_append_left (by rw [h.length]; exact hlt)]
    obtain ⟨b', param', hentry'⟩ := h.numbered.entry i c' hi
    obtain rfl : b' = b := Option.some.inj (hentry'.addr.symm.trans hentry.addr)
    have hne : b' ≠ a := by
      rintro rfl
      cases hnew.symm.trans hentry'.node
    rw [if_neg hne] at hnode
    exact h.row i c' b' param hi (hentry.mono (by simp [hcall, hne]))
  · obtain rfl : i = added.length := by
      have := (List.getElem?_eq_some_iff.1 hi).1
      simp at this
      omega
    rw [List.getElem?_concat_length] at hi
    obtain rfl := Option.some.inj hi
    obtain rfl : a = b := Option.some.inj (hparam.symm.trans hentry.addr)
    rw [if_pos rfl] at hnode
    obtain rfl := Option.some.inj hnode
    rw [← h.length]
    simp

theorem addAll_append {calls' : List AddCall} : addAll s (calls ++ calls') = addAll (addAll s calls) calls' :=
  List.foldl_append

theorem nodes_addAll (hs : s.nodes a = none) (hc : ∀ c ∈ calls, c.row?.isSome → c.param ≠ some a) :
    (addAll s calls).nodes a = none := by
  induction calls generalizing s with
  | nil => exact hs
  | cons c calls ih =>
    refine ih ?_ fun c' hc' => hc c' (List.mem_cons_of_mem _ hc')
    show (loadModuleAddPath s c).2.nodes a = none
    rcases loadModuleAddPath_row s c with ⟨-, hsame⟩ | ⟨b, path, hrow, hparam, -, hcall⟩
    · rw [hsame]
      exact hs
    · have hne : a ≠ b := by
        rintro rfl
        exact hc c List.mem_cons_self (by simp [hrow]) hparam
      simp [hcall, hne, hs]

/-- The list of the calls is the table of their rows. -/
theorem shows_addAll (h : MallocFresh calls) :
    Shows (addAll World.init.state calls) (adding calls) (tableOf calls) := by
  induction calls using List.reverseRecOn with
  | nil => exact ⟨numbered_init, rfl, fun i c a param hi => by cases hi⟩
  | append_singleton calls c ih =>
    obtain ⟨hpre, -, hlast⟩ := List.pairwise_append.1 h
    rw [tableOf_append, adding_append, addAll_append]
    refine (ih hpre).add fun a _ hparam => nodes_addAll rfl fun c' hc' hrow hparam' => ?_
    exact hlast c' hc' c (List.mem_singleton_self c) hrow (hparam.trans hparam'.symm)

theorem scanLoop_state {k : DirAnswers} {dir : CStr} {fuel : Nat} (h : scanLoop k dir fuel i s = some (calls, s')) :
    s' = addAll s calls := by
  induction fuel generalizing i s s' calls with
  | zero => cases h
  | succ fuel ih =>
    rw [scanLoop] at h
    obtain ⟨cs, s₁, hround, hs₁⟩ : ∃ cs s₁, (if (k.dread i).1 ≥ 0 then
        ([k.call dir i], (loadModuleAddPath s (k.call dir i)).2) else ([], s)) = (cs, s₁) ∧ s₁ = addAll s cs := by
      split_ifs
      · exact ⟨_, _, rfl, rfl⟩
      · exact ⟨_, _, rfl, rfl⟩
    rw [hround] at h
    dsimp only at h
    by_cases hpos : (k.dread i).1 > 0
    · rw [if_pos hpos] at h
      cases hrest : scanLoop k dir fuel (i + 1) s₁ with
      | none =>
        rw [hrest] at h
        cases h
      | some r =>
        rw [hrest] at h
        cases h
        rw [ih hrest, hs₁, addAll_append]
    · rw [if_neg hpos] at h
      cases h
      exact hs₁

/-- The state after a scan is that after its calls. -/
theorem scan_state {k : DirAnswers} {dir : CStr} {fuel : Nat} {res : Int32}
    (h : loadModuleAddPathByDir k dir fuel s = some (res, calls, s')) : s' = addAll s calls := by
  unfold loadModuleAddPathByDir at h
  dsimp only at h
  by_cases hdd : k.dopen < 0
  · rw [if_pos hdd] at h
    cases h
    rfl
  rw [if_neg hdd] at h
  cases hloop : scanLoop k dir fuel 0 s with
  | none =>
    rw [hloop] at h
    cases h
  | some r =>
    rw [hloop] at h
    cases h
    exact scanLoop_state hloop

/-! ### Searches and loads -/

/-- The last hit of a list, from its number. -/
theorem find?_reverse {α : Type} {p : α → Bool} (l : List α) :
    l.reverse.find? p = ((List.range l.length).reverse.find? fun i => l[i]?.any p).bind (l[·]?) := by
  induction l using List.reverseRecOn with
  | nil => rfl
  | append_singleton l c ih =>
    rw [List.reverse_append, List.length_append, List.length_singleton, List.range_succ, List.reverse_append,
      List.reverse_singleton, List.reverse_singleton, List.singleton_append, List.singleton_append, List.find?_cons,
      List.find?_cons, List.getElem?_concat_length]
    cases hp : p c with
    | true => simp [hp]
    | false =>
      have hfront : ∀ i ∈ (List.range l.length).reverse, (l ++ [c])[i]? = l[i]? := fun i hi =>
        List.getElem?_append_left (by simpa using hi)
      have hany : ((List.range l.length).reverse.find? fun i => (l ++ [c])[i]?.any p) =
          (List.range l.length).reverse.find? fun i => l[i]?.any p :=
        List.find?_congr fun i hi => by rw [hfront i hi]
      simp only [Option.any_some, hp]
      rw [ih, hany]
      cases hfind : (List.range l.length).reverse.find? fun i => l[i]?.any p with
      | none => rfl
      | some i => exact (hfront i (List.mem_of_find?_eq_some hfind)).symm

namespace Shows

theorem get (h : Shows s added t) (hi : added[i]? = some c) : ∃ a param, EntryOf s c i a param ∧
    t[i]? = some ⟨param.path, param.modid⟩ := by
  obtain ⟨a, param, hentry⟩ := h.numbered.entry i c hi
  exact ⟨a, param, hentry, h.row i c a param hi hentry⟩

theorem get_row (h : Shows s added t) (hi : t[i]? = some row) : ∃ c a param, added[i]? = some c ∧
    EntryOf s c i a param ∧ row = ⟨param.path, param.modid⟩ := by
  have hlt : i < added.length := h.length ▸ (List.getElem?_eq_some_iff.1 hi).1
  obtain ⟨a, param, hentry, hrow⟩ := h.get (List.getElem?_eq_getElem hlt)
  exact ⟨_, a, param, List.getElem?_eq_getElem hlt, hentry, Option.some.inj (hi.symm.trans hrow)⟩

/-- `saerch_module_entry` finds the entry of the last row with the path. -/
theorem search_path (h : Shows s added t) (hn : added.length ≤ n) (path : CStr) :
    saerchModuleEntry s path n = .ok ((t.rowOf path).bind fun i => added[i]?.bind AddCall.param) := by
  have hpath : ∀ i ∈ (List.range added.length).reverse,
      (added[i]?.any fun c => c.path = some path) = decide (t[i]?.map Row.path = some path) := by
    intro i hi
    have hlt : i < added.length := by simpa using hi
    obtain ⟨a, param, hentry, hrow⟩ := h.get (List.getElem?_eq_getElem hlt)
    rw [hrow, List.getElem?_eq_getElem hlt]
    simp [hentry.path]
  rw [ModuleLoader.search_path h.numbered hn, find?_reverse, List.find?_congr hpath, Option.bind_assoc, Table.rowOf,
    h.length]

/-- `saerch_module_entry_by_number` finds the entry of the row. -/
theorem search_number (h : Shows s added t) (hn : added.length ≤ n) (hfew : added.length < 2 ^ 31) (v : Nat) :
    saerchModuleEntryByNumber s (UInt32.ofNat v) n = .ok (added[v % 2 ^ 32]?.bind AddCall.param) :=
  ModuleLoader.search_number h.numbered hn hfew (UInt32.ofNat v)

/-- A load is noted in its row, and in no other one. -/
theorem load (h : Shows s added t) (hfew : added.length < 2 ^ 31) (hi : added[i]? = some c) (ha : c.param = some a) :
    Shows (s.setModid a modid) added (t.load i modid) := by
  refine ⟨h.numbered.setModid a modid, by simp [Table.load, h.length], fun j c' b param hj hentry => ?_⟩
  obtain ⟨b', param', hentry', hrow⟩ := h.get hj
  obtain rfl : b' = b := Option.some.inj (hentry'.addr.symm.trans hentry.addr)
  have hnode := hentry.node
  simp only [State.setModid, hentry'.node, Option.map_some] at hnode
  rw [Table.load, List.getElem?_modify, hrow]
  by_cases hab : b' = a
  · subst hab
    obtain ⟨d, param₁, hentry₁, -⟩ := h.get hi
    obtain rfl : d = b' := Option.some.inj (hentry₁.addr.symm.trans ha)
    obtain rfl : param₁ = param' := Option.some.inj (hentry₁.node.symm.trans hentry'.node)
    have hij : i = j := by
      have hi' := (List.getElem?_eq_some_iff.1 hi).1
      have hj' := (List.getElem?_eq_some_iff.1 hj).1
      rw [← hentry₁.toNat_number (by omega), hentry'.toNat_number (by omega)]
    rw [if_pos rfl] at hnode
    obtain rfl := Option.some.inj hnode
    simp [hij]
  · rw [if_neg hab] at hnode
    obtain rfl := Option.some.inj hnode
    have hne : i ≠ j := by
      rintro rfl
      obtain rfl := Option.some.inj (hi.symm.trans hj)
      exact hab (Option.some.inj (hentry'.addr.symm.trans ha))
    simp [hne]

end Shows

/-! ### The console -/

variable {x : Input} {xs : List Input}

/-- The row that is found is there, and has the path. -/
theorem rowOf_get (h : t.rowOf path = some i) : ∃ row, t[i]? = some row ∧ row.path = path := by
  have hpath := List.find?_some h
  simpa [Option.map_eq_some_iff] using hpath

theorem loadStart_eq (h : Shows s added t) (hfew : added.length < 2 ^ 31) (hi : t[i]? = some row) (modid : Int32) :
    ∃ a, added[i]?.bind AddCall.param = some a ∧ loadStart s a modid = .ok (s.setModid a modid, row.path) ∧
      Shows (s.setModid a modid) added (t.load i modid) := by
  obtain ⟨c, a, param, hc, hentry, rfl⟩ := h.get_row hi
  refine ⟨a, ?_, ?_, h.load hfew hc hentry.addr⟩
  · rw [hc]
    exact hentry.addr
  · rw [loadStart, hentry.node]

/-- What has been done to the list has been done to the table, and the same has gone out. -/
def Serves (added : List AddCall) (r : Except Fault (State × List Event)) (t : Table × List Event) : Prop :=
  ∃ s, r = .ok (s, t.2) ∧ Shows s added t.1

theorem loadPath_serves (h : Shows s added t) (hn : added.length ≤ n) (hfew : added.length < 2 ^ 31) :
    Serves added (loadPath s path modid n) (t.serve (.path path) modid) := by
  have hsearch := h.search_path hn path
  unfold loadPath Table.serve
  dsimp only
  cases hrow : t.rowOf path with
  | none =>
    rw [hrow, Option.bind_none] at hsearch
    exact ⟨s, by rw [hsearch]; rfl, h⟩
  | some i =>
    obtain ⟨row, hi, hpath⟩ := rowOf_get hrow
    obtain ⟨a, ha, hstart, hshows⟩ := loadStart_eq h hfew hi modid
    rw [hrow, Option.bind_some, ha] at hsearch
    refine ⟨_, ?_, hshows⟩
    rw [hsearch]
    show loadStart s a modid >>= _ = _
    rw [hstart, hpath]
    rfl

theorem loadNumber_serves {arg : CStr} {number₀ : UInt32} (h : Shows s added t) (hn : added.length ≤ n)
    (hfew : added.length < 2 ^ 31) : Serves added (loadNumber s arg number₀ modid n)
      (t.serve (if arg ≠ [] ∧ arg.all (IsDigit ·) then .number (valueFrom 0 arg) else .nothing) modid) := by
  have hall : arg.all (IsDigit ·) ↔ ∀ c ∈ arg, IsDigit c := by simp
  unfold loadNumber
  by_cases hdigits : arg ≠ [] ∧ arg.all (IsDigit ·)
  swap
  · have hnot : ¬ ∃ v, Denotes arg v := fun ⟨v, hv⟩ => hdigits ⟨hv.ne_nil, hall.2 hv.digits⟩
    rw [if_neg hdigits, cvtStrToDec_of_not_denotes hnot]
    exact ⟨s, rfl, h⟩
  rw [if_pos hdigits]
  obtain ⟨number, hcvt, hvalue⟩ := @cvtStrToDec_of_denotes arg number₀ (valueFrom 0 arg)
    ⟨hdigits.1, hall.1 hdigits.2, rfl⟩
  obtain rfl : number = UInt32.ofNat (valueFrom 0 arg) := by
    rw [← UInt32.toNat_inj, hvalue]
    rfl
  rw [hcvt]
  dsimp only
  rw [if_neg (show ¬ (0 : Int32) < 0 by decide)]
  have hsearch := h.search_number hn hfew (valueFrom 0 arg)
  unfold Table.serve
  dsimp only
  cases hrow : t[valueFrom 0 arg % 2 ^ 32]? with
  | none =>
    have hnone : added[valueFrom 0 arg % 2 ^ 32]? = none := by
      rw [List.getElem?_eq_none_iff] at hrow ⊢
      rw [← h.length]
      exact hrow
    rw [hnone, Option.bind_none] at hsearch
    exact ⟨s, by rw [hsearch]; rfl, h⟩
  | some row =>
    obtain ⟨a, ha, hstart, hshows⟩ := loadStart_eq h hfew hrow modid
    rw [ha] at hsearch
    refine ⟨_, ?_, hshows⟩
    rw [hsearch]
    show loadStart s a modid >>= _ = _
    rw [hstart]
    rfl

/-- An iteration of the loop serves the request of its line. -/
theorem step_serves (h : Shows s added t) (hn : added.length ≤ n) (hfew : added.length < 2 ^ 31)
    (hres : x.res.toInt ≤ 0x7F) : Serves added (x.step s n) (t.serve (request x.line) x.modid) := by
  have hcommand := command_eq hres
  unfold Input.step request
  dsimp only
  by_cases hload : loadWord <+: x.line.map Subtype.val
  · rw [if_pos hload] at hcommand ⊢
    rw [hcommand]
    dsimp only
    rw [string_eq (o := 5) hres (length_le_of_startsWith hload)]
    exact loadPath_serves h hn hfew
  rw [if_neg hload] at hcommand ⊢
  by_cases hnumber : loadByNumberWord <+: x.line.map Subtype.val
  · rw [if_pos hnumber] at hcommand ⊢
    rw [hcommand]
    dsimp only
    rw [string_eq (o := 15) hres (length_le_of_startsWith hnumber)]
    exact loadNumber_serves h hn hfew
  rw [if_neg hnumber] at hcommand ⊢
  by_cases hexit : exitWord <+: x.line.map Subtype.val
  · rw [if_pos hexit] at hcommand ⊢
    rw [hcommand]
    exact ⟨s, rfl, h⟩
  · rw [if_neg hexit] at hcommand ⊢
    rw [hcommand]
    exact ⟨s, rfl, h⟩

theorem command_exit_iff (hres : x.res.toInt ≤ 0x7F) : x.command = .exit ↔ request x.line = .exit := by
  rw [command_eq hres, request]
  split_ifs <;> simp

/-- What a line asks for, with the answer to a load. -/
def Input.asked (x : Input) : Request × Int32 := (request x.line, x.modid)

/-- The loop serves the requests of its lines, and leaves at the first `exit`. -/
theorem ttyLoop_serves (h : Shows s added t) (hn : added.length ≤ n) (hfew : added.length < 2 ^ 31)
    (hres : ∀ x ∈ xs, x.res.toInt ≤ 0x7F) :
    ∃ s', ttyLoop n s xs = .ok (s', (t.session (xs.map Input.asked)).2) ∧
      Shows s' added (t.session (xs.map Input.asked)).1 := by
  induction xs generalizing s t with
  | nil => exact ⟨s, rfl, h⟩
  | cons x xs ih =>
    rw [List.forall_mem_cons] at hres
    rw [List.map_cons, ttyLoop, Input.asked, Table.session]
    by_cases hexit : x.command = .exit
    · rw [if_pos hexit, if_pos ((command_exit_iff hres.1).1 hexit)]
      exact ⟨s, rfl, h⟩
    rw [if_neg hexit, if_neg (mt (command_exit_iff hres.1).2 hexit)]
    obtain ⟨s₁, hstep, hs₁⟩ := step_serves h hn hfew hres.1
    obtain ⟨s₂, hloop, hs₂⟩ := ih hs₁ hres.2
    refine ⟨s₂, ?_, hs₂⟩
    rw [hstep]
    show ttyLoop n s₁ xs >>= _ = _
    rw [hloop]
    rfl

/-! ### The list as a whole -/

theorem filterMap_eq {α β : Type} {f : α → Option β} {l : List α} {l' : List β} (hlen : l'.length = l.length)
    (h : ∀ (i : Nat) c, l[i]? = some c → f c = l'[i]?) : l.filterMap f = l' := by
  induction l generalizing l' with
  | nil => exact (List.length_eq_zero_iff.1 hlen).symm
  | cons c l ih =>
    cases l' with
    | nil => cases hlen
    | cons b l' =>
      rw [List.filterMap_cons_some (h 0 c rfl), ih (Nat.succ.inj hlen) fun i c' hi => h (i + 1) c' hi]

theorem listLoop_chain {p : Option Nat} {l : List Nat} (h : Chain s.next p l) (hn : l.length ≤ n) :
    listLoop s n p =
      .ok (l.filterMap fun a => (s.nodes a).map fun param => .listed param.number param.path) := by
  induction l generalizing p n with
  | nil =>
    obtain rfl := h
    cases n <;> rfl
  | cons a l ih =>
    obtain ⟨rfl, q, hq, h⟩ := h
    obtain ⟨n, rfl⟩ : ∃ m, n = m + 1 := ⟨n - 1, by simp at hn; omega⟩
    obtain ⟨param, hnode, rfl⟩ := Option.map_eq_some_iff.1 hq
    rw [listLoop, hnode]
    dsimp only
    rw [ih h (by simpa using hn), List.filterMap_cons_some (by rw [hnode]; rfl)]
    rfl

/-- What is printed of the list is the table from its last row on. -/
theorem Shows.listLoop (h : Shows s added t) (hn : added.length ≤ n) :
    ModuleLoader.listLoop s n s.pModuleLoadParamTree = .ok t.listing := by
  have hlen : (added.reverse.filterMap AddCall.param).length ≤ n :=
    Nat.le_trans (List.length_filterMap_le _ _) (by simpa using hn)
  rw [listLoop_chain h.numbered.chain hlen, List.filterMap_reverse, List.filterMap_reverse, List.filterMap_filterMap,
    Table.listing, List.map_reverse]
  congr 2
  refine filterMap_eq (by simp [h.length]) fun i c hi => ?_
  obtain ⟨a, param, hentry, hrow⟩ := h.get hi
  simp [hentry.addr, hentry.node, hrow, hentry.number]

/-- The first entry of the list is that of the last row. -/
theorem Shows.head (h : Shows s added t) : s.pModuleLoadParamTree = added[t.length - 1]?.bind AddCall.param := by
  have hchain := h.numbered.chain
  rw [h.length]
  rcases List.eq_nil_or_concat added with rfl | ⟨l, c, rfl⟩
  · exact hchain
  · rw [List.concat_eq_append] at h hchain ⊢
    obtain ⟨a, param, hentry⟩ := h.numbered.entry l.length c (by simp)
    rw [List.reverse_append, List.reverse_singleton, List.singleton_append,
      List.filterMap_cons_some hentry.addr] at hchain
    rw [hchain.1, ← hentry.addr]
    simp

theorem moduleNum_eq_one (h : Shows s added t) (hfew : added.length < 2 ^ 31) : s.moduleNum = 1 ↔ t.length = 1 := by
  have hcount : s.moduleNum.toInt = added.length := by
    rw [h.numbered.count]
    exact Int32.toInt_ofNat_of_lt hfew
  rw [← Int32.toInt_inj, hcount, h.length]
  exact Int.natCast_inj

theorem loadFirstModule_serves {a : Nat} (h : Shows s added t) (hfew : added.length < 2 ^ 31)
    (hrow : t[t.length - 1]? = some row) (ha : s.pModuleLoadParamTree = some a) (modid : Int32) :
    Serves added (loadFirstModule s a modid) (t.loadLast row modid) := by
  obtain ⟨b, hb, hstart, hshows⟩ := loadStart_eq h hfew hrow modid
  rw [h.head, hb] at ha
  obtain rfl := Option.some.inj ha
  refine ⟨_, ?_, hshows⟩
  rw [loadFirstModule, hstart]
  rfl

theorem startModules_serves {k : Answers} {a : Nat} (h : Shows s added t) (hn : added.length ≤ n)
    (hfew : added.length < 2 ^ 31) (hres : ∀ x ∈ k.inputs, x.res.toInt ≤ 0x7F) (hrow : t[t.length - 1]? = some row)
    (ha : s.pModuleLoadParamTree = some a) :
    Serves added (startModules k n s a) (t.start row k (k.inputs.map Input.asked)) := by
  obtain ⟨s₁, hfirst, hs₁⟩ := loadFirstModule_serves h hfew hrow ha k.first
  unfold startModules Table.start
  by_cases hone : s.moduleNum = 1
  · rw [if_pos hone, if_pos ((moduleNum_eq_one h hfew).1 hone), hfirst]
    exact ⟨s₁, rfl, hs₁⟩
  rw [if_neg hone, if_neg (mt (moduleNum_eq_one h hfew).2 hone)]
  by_cases hkit : k.searchModid < 0
  · obtain ⟨c, b, param, hc, hentry, rfl⟩ := h.get_row hrow
    rw [h.head, hc, Option.bind_some, hentry.addr] at ha
    obtain rfl := Option.some.inj ha
    rw [if_pos hkit, if_pos hkit, hentry.node, hfirst]
    exact ⟨s₁, rfl, hs₁⟩
  rw [if_neg hkit, if_neg hkit]
  by_cases hthread : k.thread = true
  · obtain ⟨s₂, hloop, hs₂⟩ := ttyLoop_serves h hn hfew hres
    rw [if_pos hthread, if_pos hthread, hloop]
    exact ⟨s₂, rfl, hs₂⟩
  · rw [if_neg hthread, if_neg hthread]
    exact ⟨s, rfl, h⟩

theorem listAndStart_serves {k : Answers} (h : Shows s added t) (hn : added.length ≤ n)
    (hfew : added.length < 2 ^ 31) (hres : ∀ x ∈ k.inputs, x.res.toInt ≤ 0x7F) :
    Serves added (listAndStart k n s) (t.program k (k.inputs.map Input.asked)) := by
  have hhead := h.head
  rw [listAndStart, h.listLoop hn]
  unfold Table.program
  cases hlast : t.getLast? with
  | none =>
    obtain rfl := List.getLast?_eq_none_iff.1 hlast
    obtain rfl := List.length_eq_zero_iff.1 h.length.symm
    rw [hhead]
    exact ⟨s, rfl, h⟩
  | some row =>
    rw [List.getLast?_eq_getElem?] at hlast
    obtain ⟨c, a, param, hc, hentry, -⟩ := h.get_row hlast
    rw [hc, Option.bind_some, hentry.addr] at hhead
    obtain ⟨s', hstart, hs'⟩ := startModules_serves h hn hfew hres hlast hhead
    refine ⟨s', ?_, hs'⟩
    rw [hhead]
    show startModules k n s a >>= _ = _
    rw [hstart]
    rfl

/-! ### What is loaded -/

theorem map_path_load : (t.load i modid).map Row.path = t.map Row.path := by
  refine List.ext_getElem? fun j => ?_
  rw [Table.load, List.getElem?_map, List.getElem?_map, List.getElem?_modify]
  cases t[j]? with
  | none => rfl
  | some row => by_cases hij : i = j <;> simp [hij]

/-- Only paths of the table are loaded, and the paths stay. -/
def LoadsFrom (t : Table) (r : Table × List Event) : Prop :=
  (∀ path, .loadStart path ∈ r.2 → path ∈ t.map Row.path) ∧ r.1.map Row.path = t.map Row.path

theorem serve_loadsFrom {r : Request} : LoadsFrom t (t.serve r modid) := by
  unfold Table.serve
  cases r with
  | path path =>
    dsimp only
    cases hrow : t.rowOf path with
    | none => exact ⟨by simp, rfl⟩
    | some i =>
      obtain ⟨row, hi, rfl⟩ := rowOf_get hrow
      refine ⟨fun p hp => ?_, map_path_load⟩
      obtain rfl : p = row.path := by simpa using hp
      exact List.mem_map_of_mem (List.mem_of_getElem? hi)
  | number v =>
    dsimp only
    cases hrow : t[v % 2 ^ 32]? with
    | none => exact ⟨by simp, rfl⟩
    | some row =>
      refine ⟨fun p hp => ?_, map_path_load⟩
      obtain rfl : p = row.path := by
        split_ifs at hp <;> simpa using hp
      exact List.mem_map_of_mem (List.mem_of_getElem? hrow)
  | exit => exact ⟨by simp, rfl⟩
  | nothing => exact ⟨by simp, rfl⟩

theorem session_loadsFrom {rs : List (Request × Int32)} :
    ∀ path, .loadStart path ∈ (t.session rs).2.1 → path ∈ t.map Row.path := by
  induction rs generalizing t with
  | nil => simp [Table.session]
  | cons r rs ih =>
    intro path hpath
    obtain ⟨r, modid⟩ := r
    rw [Table.session] at hpath
    by_cases hexit : r = .exit
    · simp [hexit] at hpath
    rw [if_neg hexit] at hpath
    obtain ⟨hserve, hsame⟩ : LoadsFrom t (t.serve r modid) := serve_loadsFrom
    rcases List.mem_append.1 hpath with hpath | hpath
    · exact hserve path hpath
    · rw [← hsame]
      exact ih path hpath

theorem not_mem_exitApp {destroy : Int32} : .loadStart path ∉ exitApp destroy := by
  unfold exitApp
  split_ifs <;> simp

theorem program_loadsFrom {k : Answers} {rs : List (Request × Int32)} :
    ∀ path, .loadStart path ∈ (t.program k rs).2 → path ∈ t.map Row.path := by
  intro path hpath
  have hlisting : .loadStart path ∉ t.listing := by simp [Table.listing]
  unfold Table.program at hpath
  cases hlast : t.getLast? with
  | none => simp [hlast, hlisting, not_mem_exitApp] at hpath
  | some row =>
    have hmem : row.path ∈ t.map Row.path := List.mem_map_of_mem (List.mem_of_getLast? hlast)
    have hload : .loadStart path ∈ (t.loadLast row k.first).2 → path ∈ t.map Row.path := by
      intro hin
      obtain rfl : path = row.path := by
        unfold Table.loadLast at hin
        split_ifs at hin <;> simpa using hin
      exact hmem
    have hsession : .loadStart path ∈ (t.session rs).2.1 → path ∈ t.map Row.path := session_loadsFrom path
    rw [hlast] at hpath
    simp only [List.mem_append, hlisting, false_or] at hpath
    unfold Table.start at hpath
    split_ifs at hpath with hone hkit hthread
    · simp only [List.mem_append, not_mem_exitApp, or_false] at hpath
      exact hload hpath
    · simp only [List.mem_cons, List.mem_append, not_mem_exitApp, or_false, reduceCtorEq, false_or] at hpath
      exact hload hpath
    · simp only [List.mem_cons, List.mem_append, reduceCtorEq, false_or] at hpath
      rcases hpath with hpath | hpath
      · exact hsession hpath
      · split_ifs at hpath
        · exact absurd hpath not_mem_exitApp
        · cases hpath
    · exact absurd hpath not_mem_exitApp

/-- Whatever the kernel answers and is typed, the program comes to its end or waits for a line, does and prints what the
table of the modules that opened would, and loads no other module. A read of no bytes would be written before the
buffer. -/
theorem moduleStart_serves {k : Answers} {fuel : Nat} {res : Int32}
    (hscan : loadModuleAddPathByDir k.dir modulesDir fuel World.init.state = some (res, calls, s))
    (hfresh : MallocFresh (calls ++ k.fixedCalls)) (hn : (adding (calls ++ k.fixedCalls)).length ≤ n)
    (hfew : (adding (calls ++ k.fixedCalls)).length < 2 ^ 31) (hres : ∀ x ∈ k.inputs, x.res.toInt ≤ 0x7F)
    (hread : ∀ x ∈ k.inputs, x.res ≠ 0) :
    Serves (adding (calls ++ k.fixedCalls)) (moduleStart k fuel n)
      ((tableOf (calls ++ k.fixedCalls)).program k (k.inputs.map Input.asked)) ∧
    (∀ x ∈ k.inputs, InBuffer x) ∧
    ∀ path s' es, moduleStart k fuel n = .ok (s', es) → .loadStart path ∈ es →
      ∃ c ∈ calls ++ k.fixedCalls, c.path = some path ∧ ¬ c.fd < 0 := by
  obtain rfl := scan_state hscan
  have hserves := listAndStart_serves (shows_addAll hfresh) hn hfew hres
  have hrun : moduleStart k fuel n = listAndStart k n (addAll World.init.state (calls ++ k.fixedCalls)) := by
    rw [moduleStart, hscan, addAll_append]
  rw [← hrun] at hserves
  refine ⟨hserves, fun x hx => (inBuffer_iff (hres x hx)).2 (hread x hx), fun path s' es hrun hpath => ?_⟩
  obtain ⟨s'', hrun', -⟩ := hserves
  rw [hrun'] at hrun
  cases hrun
  obtain ⟨row, hrow, rfl⟩ := List.mem_map.1 (program_loadsFrom path hpath)
  obtain ⟨c, hc, hc'⟩ := List.mem_filterMap.1 hrow
  refine ⟨c, hc, ?_⟩
  unfold AddCall.row? at hc'
  split at hc'
  · split_ifs at hc' with hno
    cases hc'
    exact ⟨by assumption, fun hfd => hno (.inl hfd)⟩
  · cases hc'

end

/-- No directory, two of the five files, a devkit, and three lines. -/
def twoModules : Answers where
  dir := { dirOfX 0 with dopen := -1 }
  fd i := if i = 0 ∨ i = 3 then 3 else -1
  param i := some (4 + i)
  tmpPath _ := true
  first := 0
  searchModid := 5
  thread := true
  inputs := [typed (loadWord ++ [0x78, 0x0A]), typed (loadByNumberWord ++ [0x31, 0x0A]), typed (exitWord ++ [0x0A])]
  destroy := 0

/-- A path that is not there, and the second module. -/
theorem moduleStart_serves_twoModules : ∃ s, moduleStart twoModules 1 5 = .ok (s, [
    .listed 1 (literal "ux0:module.skprx"), .listed 0 (literal "host0:module.skprx"), .commands, .notFound,
    .loadStart (literal "ux0:module.skprx"), .allDone]) := by
  have hscan : loadModuleAddPathByDir twoModules.dir modulesDir 1 World.init.state = some (-1, [], World.init.state) :=
    rfl
  obtain ⟨⟨s, hrun, -⟩, -⟩ := moduleStart_serves (n := 5) hscan (by decide) (by decide) (by decide) (by decide)
    (by decide)
  exact ⟨s, hrun⟩

end VitaUtility.ModuleLoader
