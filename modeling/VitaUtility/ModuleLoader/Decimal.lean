import VitaUtility.ModuleLoader.Params

/-!
# Numbers on the console

`cvtStrToDec` with its 32-bit accumulator, beside the number that a string of digits denotes, and the command
`load_by_number` that goes by it.
-/

namespace VitaUtility.ModuleLoader

/-- The `do` loop; `none` is the `return -1` in it. -/
def digitLoop : CStr → UInt32 → Option UInt32
  | [], locVal => some locVal
  | ch :: str, locVal =>
    let ch := ch.1 - 0x30
    if ch > 9 then none else digitLoop str (ch.toUInt32 + locVal * 10)

/-- The result, and what is in `*dst` afterwards. -/
def cvtStrToDec (str : Option CStr) (dst : UInt32) : Int32 × UInt32 :=
  match str with
  | none => (-1, dst)
  | some [] => (-1, dst)
  | some str =>
    match digitLoop str 0 with
    | none => (-1, dst)
    | some locVal => (0, locVal)

/-- `param->modid = modid` -/
def State.setModid (s : State) (a : Nat) (modid : Int32) : State :=
  { s with nodes := fun b => if b = a then (s.nodes b).map ({ · with modid }) else s.nodes b }

/-- The state after loads: the entries that were loaded, with the answers of `taiLoadStartKernelModule`. -/
def State.afterLoads (s : State) (loads : List (Nat × Int32)) : State :=
  loads.foldl (fun s load => s.setModid load.1 load.2) s

/-- The command `load_by_number`, and the entry that it loads; `number₀` is what is in `number` before, and `modid` the
answer of `taiLoadStartKernelModule`. -/
def loadByNumber (s : State) (arg : CStr) (number₀ : UInt32) (modid : Int32) (n : Nat) :
    Except Fault (State × Option Nat) := do
  let (res, number) := cvtStrToDec (some arg) number₀
  if res < 0 then .ok (s, none) else
  match ← saerchModuleEntryByNumber s number n with
  | none => .ok (s, none)
  | some a => .ok (s.setModid a modid, some a)

/-! ### What a string denotes -/

/-- `'0'` to `'9'` -/
def IsDigit (c : CChar) : Prop := 0x30 ≤ c.1.toNat ∧ c.1.toNat ≤ 0x39

instance (c : CChar) : Decidable (IsDigit c) := inferInstanceAs (Decidable (_ ∧ _))

/-- The number with the digits `str` after the number `v`. -/
def valueFrom (v : Nat) (str : CStr) : Nat := str.foldl (fun v c => v * 10 + (c.1.toNat - 0x30)) v

/-- A decimal number of one or more digits. -/
structure Denotes (str : CStr) (v : Nat) : Prop where
  ne_nil : str ≠ []
  digits : ∀ c ∈ str, IsDigit c
  value : valueFrom 0 str = v

/-- A number that is not below `2 ^ 32`. -/
def TooLarge (str : CStr) : Prop := ∃ v, Denotes str v ∧ 2 ^ 32 ≤ v

/-- The string has been parsed as a decimal number of 32 bits, or refused. -/
structure Parsed (str : CStr) (dst : UInt32) (out : Int32 × UInt32) : Prop where
  accepts : out.1 = 0 ↔ ∃ v, Denotes str v ∧ v < 2 ^ 32
  value : ∀ v, Denotes str v → v < 2 ^ 32 → out.2.toNat = v
  refuses : (¬ ∃ v, Denotes str v ∧ v < 2 ^ 32) → out = (-1, dst)

/-! ### The loop -/

section
variable {c : CChar} {str : CStr} {dst locVal : UInt32} {v : Nat}

theorem sub_gt_nine : c.1 - 0x30 > 9 ↔ ¬ IsDigit c := by
  have hlt := c.1.toNat_lt
  have h9 : (9 : UInt8).toNat = 9 := rfl
  have h30 : (0x30 : UInt8).toNat = 0x30 := rfl
  rw [gt_iff_lt, UInt8.lt_iff_toNat_lt, UInt8.toNat_sub, h9, h30, IsDigit]
  omega

/-- The accumulator is the value of the digits so far modulo `2 ^ 32`. -/
theorem digitLoop_digits (hd : ∀ c ∈ str, IsDigit c) (hv : locVal.toNat = v % 2 ^ 32) :
    ∃ r, digitLoop str locVal = some r ∧ r.toNat = valueFrom v str % 2 ^ 32 := by
  induction str generalizing locVal v with
  | nil => exact ⟨locVal, rfl, hv⟩
  | cons c str ih =>
    obtain ⟨hc, hd⟩ := List.forall_mem_cons.1 hd
    have hgt : ¬ c.1 - 0x30 > 9 := fun h => sub_gt_nine.1 h hc
    rw [digitLoop, if_neg hgt]
    refine ih hd ?_
    have hlt := c.1.toNat_lt
    have h30 : (0x30 : UInt8).toNat = 0x30 := rfl
    have h10 : (10 : UInt32).toNat = 10 := rfl
    obtain ⟨hlo, hhi⟩ := hc
    rw [UInt32.toNat_add, UInt32.toNat_mul, UInt8.toNat_toUInt32, UInt8.toNat_sub, h30, h10, hv]
    show _ = (v * 10 + (c.1.toNat - 0x30)) % 2 ^ 32
    omega

theorem digitLoop_none (h : ∃ c ∈ str, ¬ IsDigit c) : digitLoop str locVal = none := by
  induction str generalizing locVal with
  | nil =>
    obtain ⟨c, hc, -⟩ := h
    cases hc
  | cons c str ih =>
    rw [digitLoop]
    by_cases hc : IsDigit c
    · rw [if_neg fun h => sub_gt_nine.1 h hc]
      obtain ⟨c', hmem, hc'⟩ := h
      rcases List.mem_cons.1 hmem with rfl | hmem
      · exact absurd hc hc'
      · exact ih ⟨c', hmem, hc'⟩
    · exact if_pos (sub_gt_nine.2 hc)

theorem Denotes.unique {v' : Nat} (h : Denotes str v) (h' : Denotes str v') : v = v' := h.value.symm.trans h'.value

theorem cvtStrToDec_of_denotes (h : Denotes str v) :
    ∃ r, cvtStrToDec (some str) dst = (0, r) ∧ r.toNat = v % 2 ^ 32 := by
  obtain ⟨r, hloop, hr⟩ := @digitLoop_digits str 0 0 h.digits rfl
  obtain ⟨c, str, rfl⟩ := List.exists_cons_of_ne_nil h.ne_nil
  refine ⟨r, ?_, by rw [hr, h.value]⟩
  unfold cvtStrToDec
  simp only [hloop]

theorem cvtStrToDec_of_not_denotes (h : ¬ ∃ v, Denotes str v) : cvtStrToDec (some str) dst = (-1, dst) := by
  cases str with
  | nil => rfl
  | cons c str =>
    have hnot : ∃ c' ∈ c :: str, ¬ IsDigit c' := by
      refine Classical.byContradiction fun hno => h ⟨_, ⟨List.cons_ne_nil _ _, fun c' hc' => ?_, rfl⟩⟩
      exact Classical.byContradiction fun hnd => hno ⟨c', hc', hnd⟩
    unfold cvtStrToDec
    simp only [digitLoop_none hnot]

/-- A string is parsed or refused as it should be exactly when it is no number of 33 bits or more. -/
theorem parsed_iff : Parsed str dst (cvtStrToDec (some str) dst) ↔ ¬ TooLarge str := by
  by_cases h : ∃ v, Denotes str v
  swap
  · rw [cvtStrToDec_of_not_denotes h]
    refine iff_of_true ⟨?_, fun v hv => absurd ⟨v, hv⟩ h, fun _ => rfl⟩ fun ⟨v, hv, _⟩ => h ⟨v, hv⟩
    exact iff_of_false (show ¬ (-1 : Int32) = 0 by decide) fun ⟨v, hv, _⟩ => h ⟨v, hv⟩
  obtain ⟨v, hv⟩ := h
  obtain ⟨r, hcvt, hr⟩ := @cvtStrToDec_of_denotes str dst v hv
  rw [hcvt]
  by_cases hlt : v < 2 ^ 32
  · refine iff_of_true ⟨iff_of_true rfl ⟨v, hv, hlt⟩, fun v' hv' _ => ?_, fun hno => absurd ⟨v, hv, hlt⟩ hno⟩ ?_
    · rw [hr, hv.unique hv', Nat.mod_eq_of_lt (hv.unique hv' ▸ hlt)]
    · rintro ⟨v', hv', hle⟩
      rw [← hv.unique hv'] at hle
      exact absurd hlt (Nat.not_lt.2 hle)
  · refine iff_of_false (fun hp => ?_) fun hno => hno ⟨v, hv, Nat.not_lt.1 hlt⟩
    obtain ⟨v', hv', hlt'⟩ := hp.accepts.1 rfl
    rw [← hv.unique hv'] at hlt'
    exact hlt hlt'

/-! ### The command -/

variable {s : State} {w : World} {calls added : List AddCall} {loads : List (Nat × Int32)} {arg : CStr}
  {number₀ : UInt32} {modid : Int32} {n : Nat}

/-- A load keeps the numbering. -/
theorem Numbered.setModid (h : Numbered s added) (a : Nat) (modid : Int32) : Numbered (s.setModid a modid) added := by
  refine ⟨h.chain.congr fun b _ => ?_, fun i c hi => ?_, h.count⟩
  · unfold State.next State.setModid
    dsimp only
    split_ifs
    · rw [Option.map_map]
      rfl
    · rfl
  · obtain ⟨b, param, hentry⟩ := h.entry i c hi
    by_cases hb : b = a
    · refine ⟨b, { param with modid }, hentry.addr, ?_, hentry.path, hentry.number⟩
      simp [State.setModid, hb, hb ▸ hentry.node]
    · exact ⟨b, param, hentry.mono (if_neg hb)⟩

theorem Numbered.afterLoads (h : Numbered s added) : Numbered (s.afterLoads loads) added := by
  induction loads generalizing s with
  | nil => exact h
  | cons load loads ih => exact ih (h.setModid load.1 load.2)

/-- What `load_by_number` loads. -/
theorem loadByNumber_loads {s' : State} {a : Nat} : loadByNumber s arg number₀ modid n = .ok (s', some a) ↔
    ∃ v, Denotes arg v ∧ saerchModuleEntryByNumber s (UInt32.ofNat v) n = .ok (some a) ∧ s' = s.setModid a modid := by
  by_cases h : ∃ v, Denotes arg v
  swap
  · refine iff_of_false (fun hload => ?_) fun ⟨v, hv, _⟩ => h ⟨v, hv⟩
    rw [loadByNumber, cvtStrToDec_of_not_denotes h] at hload
    cases hload
  obtain ⟨v, hv⟩ := h
  obtain ⟨r, hcvt, hr⟩ := @cvtStrToDec_of_denotes arg number₀ v hv
  obtain rfl : r = UInt32.ofNat v := by
    rw [← UInt32.toNat_inj, hr]
    rfl
  rw [loadByNumber, hcvt]
  dsimp only
  rw [if_neg (show ¬ (0 : Int32) < 0 by decide), bind_eq_ok]
  constructor
  · rintro ⟨found, hfound, hload⟩
    cases found with
    | none => cases hload
    | some b =>
      cases hload
      exact ⟨v, hv, hfound, rfl⟩
  · rintro ⟨v', hv', hfound, rfl⟩
    obtain rfl := hv.unique hv'
    exact ⟨some a, hfound, rfl⟩

/-- A string loads only the module whose number it denotes, exactly when it is not too large a number that is the number
of a module modulo `2 ^ 32`. -/
theorem loads_denoted_iff (hnum : Numbered s added) (hfew : added.length < 2 ^ 31) (hn : added.length ≤ n) :
    (∀ s' a param, loadByNumber s arg number₀ modid n = .ok (s', some a) → s.nodes a = some param →
      Denotes arg param.number.toNat) ↔
    ∀ v, Denotes arg v → 2 ^ 32 ≤ v → added.length ≤ v % 2 ^ 32 := by
  have hsearch : ∀ v, saerchModuleEntryByNumber s (UInt32.ofNat v) n = .ok (added[v % 2 ^ 32]?.bind AddCall.param) :=
    fun v => search_number hnum hn hfew (UInt32.ofNat v)
  constructor
  · intro hload v hv hle
    refine Nat.not_lt.1 fun hlt => ?_
    have hget := List.getElem?_eq_getElem hlt
    obtain ⟨a, param, hentry⟩ := hnum.entry _ _ hget
    have hfound : saerchModuleEntryByNumber s (UInt32.ofNat v) n = .ok (some a) := by
      rw [hsearch, hget]
      exact congrArg Except.ok hentry.addr
    have hden := hload _ a param (loadByNumber_loads.2 ⟨v, hv, hfound, rfl⟩) hentry.node
    rw [hentry.toNat_number (Nat.lt_trans hlt hfew)] at hden
    have := hv.unique hden
    omega
  · intro hsmall s' a param hload hnode
    obtain ⟨v, hv, hfound, -⟩ := loadByNumber_loads.1 hload
    rw [hsearch, Except.ok.injEq, Option.bind_eq_some_iff] at hfound
    obtain ⟨c, hget, hparam⟩ := hfound
    have hlt := (List.getElem?_eq_some_iff.1 hget).1
    obtain ⟨a', param', hentry⟩ := hnum.entry _ _ hget
    obtain rfl := Option.some.inj (hparam.symm.trans hentry.addr)
    obtain rfl := Option.some.inj (hnode.symm.trans hentry.node)
    rw [hentry.toNat_number (Nat.lt_trans hlt hfew)]
    by_cases hle : 2 ^ 32 ≤ v
    · exact absurd hlt (Nat.not_lt.2 (hsmall v hv hle))
    · rwa [Nat.mod_eq_of_lt (Nat.not_le.1 hle)]

/-- The parser meets its purpose on every string but the numbers that are too large, and the command, after any calls of
`load_module_add_path` and any loads, on those that are no module's number modulo `2 ^ 32`. -/
theorem decimal_iff (h : Run AddStep .init calls w) (hfew : w.added.length < 2 ^ 31) (hn : w.added.length ≤ n) :
    (∀ str dst, Parsed str dst (cvtStrToDec (some str) dst) ↔ ¬ TooLarge str) ∧
    ∀ loads arg number₀ modid,
      (∀ s' a param, loadByNumber (w.state.afterLoads loads) arg number₀ modid n = .ok (s', some a) →
        (w.state.afterLoads loads).nodes a = some param → Denotes arg param.number.toNat) ↔
      ∀ v, Denotes arg v → 2 ^ 32 ≤ v → w.added.length ≤ v % 2 ^ 32 :=
  ⟨fun _ _ => parsed_iff, fun _ _ _ _ => loads_denoted_iff (numbered_run h).afterLoads hfew hn⟩

end

/-- `'0' + d` -/
def digitChar (d : Fin 10) : CChar := ⟨UInt8.ofNat (0x30 + d.1), by revert d; decide⟩

theorem isDigit_digitChar (d : Fin 10) : IsDigit (digitChar d) := by
  revert d
  decide

theorem denotes_digits {ds : List (Fin 10)} {v : Nat} (h : ds ≠ []) (hv : valueFrom 0 (ds.map digitChar) = v) :
    Denotes (ds.map digitChar) v where
  ne_nil := by simpa using h
  digits c hc := by
    obtain ⟨d, -, rfl⟩ := List.mem_map.1 hc
    exact isDigit_digitChar d
  value := hv

/-- The list with the entries of two calls. -/
def twoEntries : World :=
  ⟨(loadModuleAddPath (loadModuleAddPath World.init.state (addSlash 4 3)).2 (addSlash 6 3)).2,
    [addSlash 4 3, addSlash 6 3]⟩

theorem run_twoEntries : Run AddStep .init [addSlash 4 3, addSlash 6 3] twoEntries := by
  refine Run.cons (t := ⟨(loadModuleAddPath World.init.state (addSlash 4 3)).2, [addSlash 4 3]⟩) ?_ <|
    Run.cons ?_ (.nil _)
  · exact ⟨fun _ _ => rfl, rfl, rfl⟩
  · exact ⟨fun _ ha => by cases ha; rfl, rfl, rfl⟩

theorem decimal_iff_one : (∃ s', loadByNumber twoEntries.state [digitChar 1] 7 1 2 = .ok (s', some 6)) ∧
    (cvtStrToDec (some [digitChar 4, digitChar 2]) 7).1 = 0 ∧
    ∀ s' a param, loadByNumber twoEntries.state [digitChar 1] 7 1 2 = .ok (s', some a) →
      twoEntries.state.nodes a = some param → Denotes [digitChar 1] param.number.toNat := by
  obtain ⟨hparse, hload⟩ := decimal_iff (n := 2) run_twoEntries (by show 2 < 2 ^ 31; decide) (by decide)
  have hone : Denotes [digitChar 1] 1 := denotes_digits (List.cons_ne_nil 1 []) rfl
  have hsmall : Denotes [digitChar 4, digitChar 2] 42 := denotes_digits (List.cons_ne_nil 4 [2]) rfl
  refine ⟨⟨_, by rfl⟩, ?_, (hload [] _ 7 1).2 fun v hv hle => ?_⟩
  · refine ((hparse _ 7).2 fun ⟨v, hv, hle⟩ => ?_).accepts.2 ⟨42, hsmall, by decide⟩
    rw [← hsmall.unique hv] at hle
    exact absurd hle (by decide)
  · rw [← hone.unique hv] at hle
    exact absurd hle (by decide)

/-- `4294967297` is taken for 1, and loads the module 1. -/
theorem tooLarge_loads : Denotes ([4, 2, 9, 4, 9, 6, 7, 2, 9, 7].map digitChar) (2 ^ 32 + 1) ∧
    cvtStrToDec (some ([4, 2, 9, 4, 9, 6, 7, 2, 9, 7].map digitChar)) 7 = (0, 1) ∧
    ∃ s', loadByNumber twoEntries.state ([4, 2, 9, 4, 9, 6, 7, 2, 9, 7].map digitChar) 7 1 2 = .ok (s', some 6) := by
  exact ⟨denotes_digits (List.cons_ne_nil _ _) (by decide), by decide, _, by rfl⟩

end VitaUtility.ModuleLoader
