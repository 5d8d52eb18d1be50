import VitaUtility.ModuleLoader.Params

/-!
# The modules of a directory

`load_module_add_path_by_dir` over the answers of `sceIoDread`, with the calls of `load_module_add_path` that it makes.
-/

namespace VitaUtility.ModuleLoader

/-- What the kernel answers to a scan. -/
structure DirAnswers where
  /-- `sceIoDopen` -/
  dopen : Int32
  /-- the `i`-th `sceIoDread`, and the name in the cleared `dirent` after it -/
  dread : Nat → Int32 × CStr
  /-- the answers in the call of `load_module_add_path` that comes after it -/
  fd : Nat → Int32
  param : Nat → Option Nat
  tmpPath : Nat → Bool

/-- `"%s/%s"`, cut off where `path` ends -/
def entryPath (dir name : CStr) : CStr := (dir ++ slash :: name).take 0x3FE

/-- The call after the `i`-th `sceIoDread`. -/
def DirAnswers.call (k : DirAnswers) (dir : CStr) (i : Nat) : AddCall :=
  ⟨some (entryPath dir (k.dread i).2), k.fd i, k.param i, k.tmpPath i⟩

/-- The `do` loop for at most `fuel` rounds, from the `i`-th on: the calls, and the state after them. -/
def scanLoop (k : DirAnswers) (dir : CStr) : (fuel i : Nat) → State → Option (List AddCall × State)
  | 0, _, _ => none
  | fuel + 1, i, s =>
    let res := (k.dread i).1
    let (calls, s) := if res ≥ 0 then ([k.call dir i], (loadModuleAddPath s (k.call dir i)).2) else ([], s)
    if res > 0 then
      match scanLoop k dir fuel (i + 1) s with
      | none => none
      | some (rest, s) => some (calls ++ rest, s)
    else some (calls, s)

/-- The result, the calls and the state after them. -/
def loadModuleAddPathByDir (k : DirAnswers) (dir : CStr) (fuel : Nat) (s : State) :
    Option (Int32 × List AddCall × State) :=
  let dd := k.dopen
  if dd < 0 then some (dd, [], s) else
  match scanLoop k dir fuel 0 s with
  | none => none
  | some (calls, s) => some (0, calls, s)

/-- The answers are those of a directory with the entries `names`: a positive value with each, and then `ending`. -/
structure Lists (k : DirAnswers) (names : List CStr) (ending : Int32) : Prop where
  opened : 0 ≤ k.dopen
  entry : ∀ i name, names[i]? = some name → 0 < (k.dread i).1 ∧ (k.dread i).2 = name
  ends : (k.dread names.length).1 = ending
  ending_le : ending ≤ 0
  unfilled : ending = 0 → (k.dread names.length).2 = []

/-- The state after the calls. -/
def addAll (s : State) (calls : List AddCall) : State := calls.foldl (fun s c => (loadModuleAddPath s c).2) s

section
variable {k : DirAnswers} {dir : CStr} {names : List CStr} {ending : Int32} {s : State} {fuel i n : Nat}

/-- What the round that ends the loop calls. -/
def lastCalls (k : DirAnswers) (dir : CStr) (n : Nat) (ending : Int32) : List AddCall :=
  if ending < 0 then [] else [k.call dir n]

/-- The rounds from the `i`-th on make the calls for the entries that are left, and those of the last round. -/
theorem scanLoop_eq (h : Lists k names ending) (hi : i + n = names.length) (hfuel : n < fuel) :
    scanLoop k dir fuel i s =
      some ((List.range' i n).map (k.call dir) ++ lastCalls k dir names.length ending,
        addAll s ((List.range' i n).map (k.call dir) ++ lastCalls k dir names.length ending)) := by
  induction n generalizing i s fuel with
  | zero =>
    obtain ⟨fuel, rfl⟩ : ∃ m, fuel = m + 1 := ⟨fuel - 1, by omega⟩
    obtain rfl : i = names.length := by omega
    have hstop : ¬ ending > 0 := Int32.not_lt.2 h.ending_le
    unfold scanLoop lastCalls
    dsimp only
    rw [h.ends]
    by_cases hneg : ending < 0
    · rw [if_neg (Int32.not_le.2 hneg), if_neg hstop, if_pos hneg]
      rfl
    · rw [if_pos (Int32.not_lt.1 hneg), if_neg hstop, if_neg hneg]
      rfl
  | succ n ih =>
    obtain ⟨fuel, rfl⟩ : ∃ m, fuel = m + 1 := ⟨fuel - 1, by omega⟩
    obtain ⟨hpos, -⟩ := h.entry i _ (List.getElem?_eq_getElem (show i < names.length by omega))
    rw [scanLoop]
    dsimp only
    rw [if_pos (Int32.le_of_lt hpos), if_pos hpos, ih (by omega) (by omega)]
    rfl

/-- A path that fits is not cut off. -/
theorem entryPath_of_short {name : CStr} (h : (dir ++ slash :: name).length < 0x3FF) :
    entryPath dir name = dir ++ slash :: name :=
  List.take_of_length_le (Nat.le_of_lt_succ h)

theorem map_path_calls (h : Lists k names ending) (hshort : ∀ name ∈ names, (dir ++ slash :: name).length < 0x3FF) :
    ((List.range' 0 names.length).map (k.call dir)).map AddCall.path =
      names.map fun name => some (dir ++ slash :: name) := by
  refine List.ext_getElem? fun i => ?_
  rw [List.getElem?_map, List.getElem?_map, List.getElem?_map]
  by_cases hi : i < names.length
  · have hread := (h.entry i _ (List.getElem?_eq_getElem hi)).2
    have hpath := entryPath_of_short (hshort _ (List.getElem_mem hi))
    simp [hi, DirAnswers.call, hread, hpath]
  · have hrange : (List.range' 0 names.length)[i]? = none := List.getElem?_eq_none (by simpa using hi)
    rw [hrange, List.getElem?_eq_none (Nat.not_lt.1 hi)]
    rfl

/-- The calls of a scan are one for each entry, in the order of the directory, exactly when the directory ends with an
error; when it ends with 0 there is one more, for the directory itself. -/
theorem scan_iff (h : Lists k names ending) (hshort : ∀ name ∈ names, (dir ++ slash :: name).length < 0x3FF)
    (hfuel : names.length < fuel) : ∃ calls, loadModuleAddPathByDir k dir fuel s = some (0, calls, addAll s calls) ∧
      (calls.map AddCall.path = names.map (fun name => some (dir ++ slash :: name)) ↔ ending < 0) ∧
      (ending = 0 → calls.map AddCall.path =
        names.map (fun name => some (dir ++ slash :: name)) ++ [some (entryPath dir [])]) := by
  refine ⟨(List.range' 0 names.length).map (k.call dir) ++ lastCalls k dir names.length ending, ?_, ?_, fun h0 => ?_⟩
  · unfold loadModuleAddPathByDir
    dsimp only
    rw [if_neg (Int32.not_lt.2 h.opened), scanLoop_eq h (Nat.zero_add _) hfuel]
  · rw [List.map_append, map_path_calls h hshort, lastCalls]
    by_cases hneg : ending < 0
    · rw [if_pos hneg]
      exact iff_of_true (List.append_nil _) hneg
    · rw [if_neg hneg]
      refine iff_of_false (fun heq => ?_) hneg
      simpa using congrArg List.length heq
  · have hneg : ¬ ending < 0 := by
      rw [h0]
      decide
    rw [List.map_append, map_path_calls h hshort, lastCalls, if_neg hneg]
    simp [DirAnswers.call, h.unfilled h0]

end

/-- A directory with the entry `x`, whose end is reported as `ending`. -/
def dirOfX (ending : Int32) : DirAnswers where
  dopen := 3
  dread i := if i = 0 then (1, [⟨0x78, by decide⟩]) else (ending, [])
  fd _ := -1
  param _ := none
  tmpPath _ := true

theorem lists_dirOfX {ending : Int32} (h : ending ≤ 0) : Lists (dirOfX ending) [[⟨0x78, by decide⟩]] ending where
  opened := show (0 : Int32) ≤ 3 by decide
  entry i name hi := by
    obtain rfl : i = 0 := by simpa using (List.getElem?_eq_some_iff.1 hi).1
    cases hi
    exact ⟨show (0 : Int32) < 1 by decide, rfl⟩
  ends := rfl
  ending_le := h
  unfilled _ := rfl

/-- The scan of a directory that ends with an error calls for its entry and for nothing else. -/
theorem scan_iff_error : ∃ calls, loadModuleAddPathByDir (dirOfX (-1)) [slash] 2 World.init.state =
      some (0, calls, addAll World.init.state calls) ∧
    calls.map AddCall.path = [some [slash, slash, ⟨0x78, by decide⟩]] := by
  have hdir : Lists (dirOfX (-1)) [[⟨0x78, by decide⟩]] (-1) := lists_dirOfX (by decide)
  obtain ⟨calls, hscan, hiff, -⟩ := @scan_iff _ [slash] _ _ World.init.state 2 hdir (by decide) (by decide)
  exact ⟨calls, hscan, hiff.2 (by decide)⟩

/-- The end of the directory is taken for an entry without a name. -/
theorem scan_dirOfX_zero : ∃ calls, loadModuleAddPathByDir (dirOfX 0) [slash] 2 World.init.state =
      some (0, calls, addAll World.init.state calls) ∧
    calls.map AddCall.path = [some [slash, slash, ⟨0x78, by decide⟩], some [slash, slash]] :=
  ⟨_, rfl, rfl⟩

end VitaUtility.ModuleLoader
