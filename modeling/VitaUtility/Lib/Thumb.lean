import VitaUtility.Lib.Memory

/-!
# A fragment of Thumb-2

A routine is a list of labelled blocks of instructions; from a label it goes on into the blocks behind it. `Ends` says that it
returns, and what holds then: there is one rule for each kind of instruction.
-/

namespace VitaUtility.Thumb

/-- The registers; `half (2 * i)` and `half (2 * i + 1)` are the words of `di`. -/
inductive Reg where
  | r0 | r1 | r2 | r3 | r4 | r5 | r6 | r7 | r8 | sb | sl | ip | sp | lr
  | half (i : Nat)
  deriving DecidableEq

inductive Cond where
  | eq | ne | hs | lo | pl | ge | lt | gt

/-- What a run does on its way: loads that are not from the stack, stores of single registers, and writes of coprocessor
registers. -/
inductive Event where
  | load (a : UInt32) (n : Nat)
  | store (a v : UInt32)
  | mcr (crn crm op : Nat) (v : UInt32)

structure Machine where
  reg : Reg → UInt32
  n : Bool
  z : Bool
  c : Bool
  v : Bool
  mem : Mem
  trace : List Event

inductive Operand where
  | imm (k : UInt32)
  | reg (r : Reg)
  | lsr (r : Reg) (k : UInt32)

instance : Coe Reg Operand := ⟨.reg⟩
instance {k : Nat} : OfNat Operand k := ⟨.imm (OfNat.ofNat k)⟩

/-- `[rn, #k]` and `[rn], #k` -/
inductive Address where
  | off (rn : Reg) (k : UInt32)
  | post (rn : Reg) (k : UInt32)

/-- The instructions that the next one follows. `load` and `store` have their width in bytes; `movc c` is `mov` in an `it`
block; `pld`, `dsb`, `dmb` and `nop` do nothing that is modelled. -/
inductive Op where
  | push (rs : List Reg)
  | mov (rd : Reg) (x : Operand)
  | movc (c : Cond) (rd : Reg) (x : Operand)
  | movt (rd : Reg) (k : UInt32)
  | add (rd rn : Reg) (x : Operand)
  | sub (rd rn : Reg) (x : Operand)
  | rsb (rd rn : Reg) (x : Operand)
  | and (rd rn : Reg) (x : Operand)
  | bic (rd rn : Reg) (x : Operand)
  | ubfx (rd rn : Reg) (lsb width : Nat)
  | adds (rd rn : Reg) (x : Operand)
  | subs (rd rn : Reg) (x : Operand)
  | cmp (rn : Reg) (x : Operand)
  | lsls (rd rm : Reg) (k : Nat)
  | lsrs (rd rm : Reg) (k : Nat)
  | load (w : Nat) (rt : Reg) (a : Address)
  | store (w : Nat) (rt : Reg) (a : Address)
  | ldm (rn : Reg) (rs : List Reg)
  | stm (rn : Reg) (rs : List Reg)
  | vldmia (rn : Reg) (ds : List Nat)
  | vstmia (rn : Reg) (ds : List Nat)
  | vld1 (rn : Reg) (ds : List Nat)
  | mcr (rt : Reg) (crn crm op : Nat)
  | pld | dsb | dmb | nop

abbrev Op.ldrb : Reg → Address → Op := load 1
abbrev Op.ldrh : Reg → Address → Op := load 2
abbrev Op.ldr : Reg → Address → Op := load 4
abbrev Op.strb : Reg → Address → Op := store 1
abbrev Op.strh : Reg → Address → Op := store 2
abbrev Op.str : Reg → Address → Op := store 4
abbrev Op.movw (rd : Reg) (k : UInt32) : Op := mov rd (.imm k)

inductive Instr (L : Type) where
  | op (o : Op)
  | b (l : L)
  | bc (c : Cond) (l : L)
  | cbz (r : Reg) (l : L)
  | bl (l : L)
  | bxLr
  | popPc (rs : List Reg)
  | bkpt

instance {L : Type} : Coe Op (Instr L) := ⟨.op⟩

/-! ### One instruction -/

def sint (x : UInt32) : Int := if x.toNat < 0x80000000 then x.toNat else x.toNat - 0x100000000

namespace Machine
variable (s : Machine)

@[simp] def set (r : Reg) (x : UInt32) : Machine := { s with reg := fun q => if q = r then x else s.reg q }

@[simp] def setMem (m : Mem) : Machine := { s with mem := m }

@[simp] def emit (e : Event) : Machine := { s with trace := s.trace ++ [e] }

def addFlags (x y : UInt32) : Machine := { s with
  n := decide (sint (x + y) < 0)
  z := decide (x + y = 0)
  c := decide (2 ^ 32 ≤ x.toNat + y.toNat)
  v := decide (sint (x + y) ≠ sint x + sint y) }

/-- The flags of `x - y`, of which `c` says that there was no borrow. -/
def subFlags (x y : UInt32) : Machine := { s with
  n := decide (sint (x - y) < 0)
  z := decide (x - y = 0)
  c := decide (y ≤ x)
  v := decide (sint (x - y) ≠ sint x - sint y) }

/-- The flags of a shift: the result, and the last bit that it has shifted out. -/
@[simp] def shiftFlags (x : UInt32) (out : Bool) : Machine := { s with n := decide (sint x < 0), z := decide (x = 0), c := out }

/-- The registers from the words at `a` on. -/
def loadRegs (s : Machine) (a : UInt32) : List Reg → Machine
  | [] => s
  | r :: rs => loadRegs ((s.set r (loadN 4 s.mem a.toNat)).emit (.load a 4)) (a + 4) rs

def popRegs (s : Machine) (a : UInt32) : List Reg → Machine
  | [] => s
  | r :: rs => popRegs (s.set r (loadN 4 s.mem a.toNat)) (a + 4) rs

def storeRegs (s : Machine) (a : UInt32) : List Reg → Machine
  | [] => s
  | r :: rs => storeRegs (s.setMem (storeN 4 s.mem a.toNat (s.reg r))) (a + 4) rs

end Machine

@[simp] def Cond.holds (s : Machine) : Cond → Bool
  | eq => s.z
  | ne => !s.z
  | hs => s.c
  | lo => !s.c
  | pl => !s.n
  | ge => s.n == s.v
  | lt => s.n != s.v
  | gt => !s.z && s.n == s.v

@[simp] def Operand.eval (s : Machine) : Operand → UInt32
  | imm k => k
  | reg r => s.reg r
  | lsr r k => s.reg r >>> k

namespace Address

@[simp] def addr (s : Machine) : Address → UInt32
  | off rn k => s.reg rn + k
  | post rn _ => s.reg rn

@[simp] def writeback (s : Machine) : Address → Machine
  | off _ _ => s
  | post rn k => s.set rn (s.reg rn + k)

end Address

/-- The words of the registers `d0`, `d1`, .. of a list. -/
def halves (ds : List Nat) : List Reg := ds.flatMap fun i => [.half (2 * i), .half (2 * i + 1)]

/-- The multiple loads and stores, of which those that are not bytewise fault on an address that is no multiple of 4. -/
def Machine.ifAligned (s t : Machine) (rn : Reg) : Option Machine := if (s.reg rn).toNat % 4 = 0 then some t else none

@[simp] theorem Operand.eval_ofNat {k : Nat} {s : Machine} : (OfNat.ofNat k : Operand).eval s = OfNat.ofNat k := rfl

/-- What an instruction does, `none` for a fault. In Thumb `sp` is always a multiple of 4. -/
@[simp] def Op.apply (s : Machine) : Op → Option Machine
  | push rs =>
    let a := s.reg .sp - 4 * UInt32.ofNat rs.length
    some ((s.storeRegs a rs).set .sp a)
  | mov rd x => some (s.set rd (x.eval s))
  | movc c rd x => some (if c.holds s then s.set rd (x.eval s) else s)
  | movt rd k => some (s.set rd ((s.reg rd &&& (0xFFFF : UInt32)) ||| (k <<< (16 : UInt32))))
  | add rd rn x => some (s.set rd (s.reg rn + x.eval s))
  | sub rd rn x => some (s.set rd (s.reg rn - x.eval s))
  | rsb rd rn x => some (s.set rd (x.eval s - s.reg rn))
  | and rd rn x => some (s.set rd (s.reg rn &&& x.eval s))
  | bic rd rn x => some (s.set rd (s.reg rn &&& ~~~ x.eval s))
  | ubfx rd rn lsb width => some (s.set rd (UInt32.ofNat ((s.reg rn).toNat / 2 ^ lsb % 2 ^ width)))
  | adds rd rn x => some ((s.addFlags (s.reg rn) (x.eval s)).set rd (s.reg rn + x.eval s))
  | subs rd rn x => some ((s.subFlags (s.reg rn) (x.eval s)).set rd (s.reg rn - x.eval s))
  | cmp rn x => some (s.subFlags (s.reg rn) (x.eval s))
  | lsls rd rm k =>
    let x := s.reg rm <<< UInt32.ofNat k
    some ((s.shiftFlags x ((s.reg rm).toNat.testBit (32 - k))).set rd x)
  | lsrs rd rm k =>
    let x := s.reg rm >>> UInt32.ofNat k
    some ((s.shiftFlags x ((s.reg rm).toNat.testBit (k - 1))).set rd x)
  | load w rt a => some (((a.writeback s).set rt (loadN w s.mem (a.addr s).toNat)).emit (.load (a.addr s) w))
  | store w rt a => some (((a.writeback s).setMem (storeN w s.mem (a.addr s).toNat (s.reg rt))).emit
      (.store (a.addr s) (s.reg rt)))
  | ldm rn rs => s.ifAligned ((s.loadRegs (s.reg rn) rs).set rn (s.reg rn + 4 * UInt32.ofNat rs.length)) rn
  | stm rn rs => s.ifAligned ((s.storeRegs (s.reg rn) rs).set rn (s.reg rn + 4 * UInt32.ofNat rs.length)) rn
  | vldmia rn ds => s.ifAligned ((s.loadRegs (s.reg rn) (halves ds)).set rn (s.reg rn + 8 * UInt32.ofNat ds.length)) rn
  | vstmia rn ds => s.ifAligned ((s.storeRegs (s.reg rn) (halves ds)).set rn (s.reg rn + 8 * UInt32.ofNat ds.length)) rn
  | vld1 rn ds => some ((s.loadRegs (s.reg rn) (halves ds)).set rn (s.reg rn + 8 * UInt32.ofNat ds.length))
  | mcr rt crn crm op => some (s.emit (.mcr crn crm op (s.reg rt)))
  | pld | dsb | dmb | nop => some s

section
variable {s : Machine} {x y : UInt32} {k : Nat} {out : Bool}

theorem sint_cases (x : UInt32) : sint x = x.toNat ∧ x.toNat < 0x80000000 ∨
    sint x = x.toNat - 0x100000000 ∧ 0x80000000 ≤ x.toNat := by
  unfold sint
  split <;> omega

/-- After an addition `n` and `v` are equal if the sum of the signed numbers is not negative. -/
theorem add_ge : decide (sint (x + y) < 0) = decide (sint (x + y) ≠ sint x + sint y) ↔ 0 ≤ sint x + sint y := by
  have hx := x.toNat_lt
  have hy := y.toNat_lt
  have hadd := UInt32.toNat_add x y
  rw [decide_eq_decide]
  rcases sint_cases x with ⟨hsx, _⟩ | ⟨hsx, _⟩ <;> rcases sint_cases y with ⟨hsy, _⟩ | ⟨hsy, _⟩ <;>
    rcases sint_cases (x + y) with ⟨hs, _⟩ | ⟨hs, _⟩ <;> rw [hsx, hsy, hs] <;> omega

/-- After a subtraction they are if the first number is not the lower one. -/
theorem sub_ge : decide (sint (x - y) < 0) = decide (sint (x - y) ≠ sint x - sint y) ↔ sint y ≤ sint x := by
  have hx := x.toNat_lt
  have hy := y.toNat_lt
  have hsub := UInt32.toNat_sub x y
  rw [decide_eq_decide]
  rcases sint_cases x with ⟨hsx, _⟩ | ⟨hsx, _⟩ <;> rcases sint_cases y with ⟨hsy, _⟩ | ⟨hsy, _⟩ <;>
    rcases sint_cases (x - y) with ⟨hs, _⟩ | ⟨hs, _⟩ <;> rw [hsx, hsy, hs] <;> omega

theorem shiftLeft_eq_zero (hk : k < 32) : x <<< UInt32.ofNat k = 0 ↔ x.toNat % 2 ^ (32 - k) = 0 := by
  have hpow : 2 ^ 32 = 2 ^ (32 - k) * 2 ^ k := by rw [← Nat.pow_add, Nat.sub_add_cancel (by omega)]
  rw [← UInt32.toNat_inj, UInt32.toNat_shiftLeft, UInt32.toNat_ofNat_of_lt' (show k < 2 ^ 32 by omega), Nat.mod_eq_of_lt hk,
    Nat.shiftLeft_eq, hpow, Nat.mul_mod_mul_right]
  exact Nat.mul_eq_zero.trans (or_iff_left (Nat.pos_iff_ne_zero.1 (Nat.two_pow_pos k)))

/-- A shift by 31 has the sign of the lowest bit. -/
theorem sint_shiftLeft_neg : sint (x <<< 31) < 0 ↔ x.toNat % 2 = 1 := by
  have hlt := (x <<< 31).toNat_lt
  have hshift : (x <<< 31).toNat = x.toNat * 2 ^ 31 % 2 ^ 32 := by
    rw [UInt32.toNat_shiftLeft, Nat.shiftLeft_eq]
    rfl
  rcases sint_cases (x <<< 31) with ⟨h, _⟩ | ⟨h, _⟩ <;> rw [h] <;> omega

namespace Machine

@[simp] theorem reg_addFlags : (s.addFlags x y).reg = s.reg := rfl
@[simp] theorem mem_addFlags : (s.addFlags x y).mem = s.mem := rfl
@[simp] theorem trace_addFlags : (s.addFlags x y).trace = s.trace := rfl
@[simp] theorem ge_addFlags : (s.addFlags x y).n = (s.addFlags x y).v ↔ 0 ≤ sint x + sint y := add_ge

@[simp] theorem reg_subFlags : (s.subFlags x y).reg = s.reg := rfl
@[simp] theorem mem_subFlags : (s.subFlags x y).mem = s.mem := rfl
@[simp] theorem trace_subFlags : (s.subFlags x y).trace = s.trace := rfl
@[simp] theorem z_subFlags : (s.subFlags x y).z = decide (x - y = 0) := rfl
@[simp] theorem c_subFlags : (s.subFlags x y).c = decide (y ≤ x) := rfl
@[simp] theorem ge_subFlags : (s.subFlags x y).n = (s.subFlags x y).v ↔ sint y ≤ sint x := sub_ge

end Machine

end

/-! ### Several registers -/

/-- A load is of bytes from `a` to `a + n`. -/
def Event.Within (a n : Nat) : Event → Prop
  | load x k => a ≤ x.toNat ∧ x.toNat + k ≤ a + n
  | _ => True

theorem Event.Within.mono {e : Event} {a n b k : Nat} (h : e.Within a n) (hb : b ≤ a) (hn : a + n ≤ b + k) : e.Within b k := by
  cases e with
  | load x w => exact ⟨Nat.le_trans hb h.1, Nat.le_trans h.2 hn⟩
  | store x v => trivial
  | mcr crn crm op v => trivial

/-- What a single register stores at `x`. -/
def Event.storedAt (x : UInt32) : Event → Option UInt32
  | store a v => if a = x then some v else none
  | _ => none

/-- From `s` to `t` the words `L` are stored at `x`. -/
def StoresAt (x : UInt32) (s t : Machine) (L : List UInt32) : Prop :=
  ∃ evs, t.trace = s.trace ++ evs ∧ evs.filterMap (Event.storedAt x) = L

theorem StoresAt.trans {x : UInt32} {s t u : Machine} {L L' : List UInt32} (h : StoresAt x s t L) (h' : StoresAt x t u L') :
    StoresAt x s u (L ++ L') := by
  obtain ⟨evs, htrace, hL⟩ := h
  obtain ⟨evs', htrace', hL'⟩ := h'
  exact ⟨evs ++ evs', by rw [htrace', htrace, List.append_assoc], by rw [List.filterMap_append, hL, hL']⟩

namespace Machine
variable {n : Nat} {s : Machine} {m : Mem} {a b : UInt32} {r q : Reg} {rs : List Reg} {i : Nat}

theorem toNat_add_ofNat {n : Nat} (h : a.toNat + n < 2 ^ 32) : (a + UInt32.ofNat n).toNat = a.toNat + n := by
  rw [UInt32.toNat_add, UInt32.toNat_ofNat_of_lt' (show n < 2 ^ 32 by omega), Nat.mod_eq_of_lt h]

@[simp] theorem mem_loadRegs : (s.loadRegs a rs).mem = s.mem := by
  induction rs generalizing s a with
  | nil => rfl
  | cons r rs ih => exact ih

theorem reg_loadRegs_of_not_mem (h : q ∉ rs) : (s.loadRegs a rs).reg q = s.reg q := by
  induction rs generalizing s a with
  | nil => rfl
  | cons r rs ih =>
    exact (ih (List.not_mem_of_not_mem_cons h)).trans (if_neg (List.ne_of_not_mem_cons h))

/-- The registers have the words of `m` from `n` on, in order. -/
def Holds (s : Machine) (rs : List Reg) (m : Mem) (n : Nat) : Prop :=
  ∀ i (hi : i < rs.length), s.reg rs[i] = loadN 4 m (n + 4 * i)

theorem Holds.congr (h : s.Holds rs m n) {t : Machine} (ht : ∀ q ∈ rs, t.reg q = s.reg q) : t.Holds rs m n :=
  fun i hi => (ht _ (List.getElem_mem hi)).trans (h i hi)

theorem holds_loadRegs (hnd : rs.Nodup) (ha : a.toNat + 4 * rs.length ≤ 2 ^ 32) : (s.loadRegs a rs).Holds rs s.mem a.toNat := by
  intro i hi
  induction rs generalizing s a i with
  | nil => cases hi
  | cons r rs ih =>
    obtain ⟨hr, hrs⟩ := List.nodup_cons.1 hnd
    rw [List.length_cons] at ha hi
    cases i with
    | zero => exact (reg_loadRegs_of_not_mem hr).trans (if_pos rfl)
    | succ i =>
      have hnext : (a + 4).toNat = a.toNat + 4 := @toNat_add_ofNat a 4 (by omega)
      have hi' := @ih ((s.set r (loadN 4 s.mem a.toNat)).emit (.load a 4)) (a + 4) hrs (by omega) i (by omega)
      rw [hnext, Nat.add_assoc, show 4 + 4 * i = 4 * (i + 1) by omega] at hi'
      exact hi'

theorem trace_loadRegs (ha : a.toNat + 4 * rs.length ≤ 2 ^ 32) :
    ∃ evs, (s.loadRegs a rs).trace = s.trace ++ evs ∧ ∀ e ∈ evs, e.Within a.toNat (4 * rs.length) := by
  induction rs generalizing s a with
  | nil => exact ⟨[], (List.append_nil _).symm, nofun⟩
  | cons r rs ih =>
    rw [List.length_cons] at ha ⊢
    rcases Nat.lt_or_ge (a.toNat + 4) (2 ^ 32) with hlt | hge
    · have hnext : (a + 4).toNat = a.toNat + 4 := @toNat_add_ofNat a 4 hlt
      obtain ⟨evs, htrace, hwithin⟩ := @ih ((s.set r (loadN 4 s.mem a.toNat)).emit (.load a 4)) (a + 4) (by omega)
      refine ⟨.load a 4 :: evs, htrace.trans (by simp), List.forall_mem_cons.2 ⟨⟨Nat.le_refl _, by omega⟩, fun e he => ?_⟩⟩
      exact (hwithin e he).mono (by omega) (by omega)
    · obtain rfl : rs = [] := List.eq_nil_of_length_eq_zero (by omega)
      exact ⟨[.load a 4], rfl, by simp [Event.Within]⟩

@[simp] theorem reg_storeRegs : (s.storeRegs a rs).reg = s.reg := by
  induction rs generalizing s a with
  | nil => rfl
  | cons r rs ih => exact ih

@[simp] theorem c_storeRegs : (s.storeRegs a rs).c = s.c := by
  induction rs generalizing s a with
  | nil => rfl
  | cons r rs ih => exact ih

@[simp] theorem trace_storeRegs : (s.storeRegs a rs).trace = s.trace := by
  induction rs generalizing s a with
  | nil => rfl
  | cons r rs ih => exact ih

/-- Registers that have words are stored as a copy of them. -/
theorem Holds.mem_storeRegs (h : s.Holds rs m n) (hb : b.toNat + 4 * rs.length ≤ 2 ^ 32) :
    (s.storeRegs b rs).mem = memcpyAt s.mem b.toNat (fun j => m (n + j)) (4 * rs.length) := by
  induction rs generalizing s b n with
  | nil => simp [storeRegs]
  | cons r rs ih =>
    rw [List.length_cons] at hb ⊢
    have hr : s.reg r = loadN 4 m n := h 0 (Nat.zero_lt_succ _)
    have hfirst : (s.setMem (storeN 4 s.mem b.toNat (s.reg r))).mem = memcpyAt s.mem b.toNat (fun j => m (n + j)) 4 := by
      rw [hr, ← storeN_loadN (Nat.le_refl 4)]
      rfl
    rcases Nat.lt_or_ge (b.toNat + 4) (2 ^ 32) with hlt | hge
    · have hnext : (b + 4).toNat = b.toNat + 4 := @toNat_add_ofNat b 4 hlt
      have hrest : (s.setMem (storeN 4 s.mem b.toNat (s.reg r))).Holds rs m (n + 4) := by
        intro i hi
        rw [Nat.add_assoc, show 4 + 4 * i = 4 * (i + 1) by omega]
        exact h (i + 1) (Nat.succ_lt_succ hi)
      have hmem := @ih (n + 4) (s.setMem (storeN 4 s.mem b.toNat (s.reg r))) (b + 4) hrest (by omega)
      rw [hnext, hfirst] at hmem
      simp only [Nat.add_assoc n 4] at hmem
      refine hmem.trans ?_
      rw [memcpyAt_add, show 4 + 4 * rs.length = 4 * (rs.length + 1) by omega]
    · obtain rfl : rs = [] := List.eq_nil_of_length_eq_zero (by omega)
      exact hfirst

theorem mem_storeRegs_of_disjoint (ha : a.toNat + 4 * rs.length ≤ 2 ^ 32) (hi : i < a.toNat ∨ a.toNat + 4 * rs.length ≤ i) :
    (s.storeRegs a rs).mem i = s.mem i := by
  induction rs generalizing s a with
  | nil => rfl
  | cons r rs ih =>
    rw [List.length_cons] at ha hi
    have hfirst : (s.setMem (storeN 4 s.mem a.toNat (s.reg r))).mem i = s.mem i := if_neg (by omega)
    rcases Nat.lt_or_ge (a.toNat + 4) (2 ^ 32) with hlt | hge
    · have hnext : (a + 4).toNat = a.toNat + 4 := @toNat_add_ofNat a 4 hlt
      exact (@ih (s.setMem _) (a + 4) (by omega) (by omega)).trans hfirst
    · obtain rfl : rs = [] := List.eq_nil_of_length_eq_zero (by omega)
      exact hfirst

theorem loadN_storeRegs (ha : a.toNat + 4 * rs.length ≤ 2 ^ 32) (hi : i < rs.length) :
    loadN 4 (s.storeRegs a rs).mem (a.toNat + 4 * i) = s.reg rs[i] := by
  induction rs generalizing s a i with
  | nil => cases hi
  | cons r rs ih =>
    rw [List.length_cons] at ha hi
    rcases Nat.lt_or_ge (a.toNat + 4) (2 ^ 32) with hlt | hge
    · have hnext : (a + 4).toNat = a.toNat + 4 := @toNat_add_ofNat a 4 hlt
      cases i with
      | zero =>
        have hkeep : loadN 4 (s.storeRegs a (r :: rs)).mem a.toNat = loadN 4 (storeN 4 s.mem a.toNat (s.reg r)) a.toNat :=
          loadN_congr fun j hj => @mem_storeRegs_of_disjoint (s.setMem (storeN 4 s.mem a.toNat (s.reg r))) (a + 4) rs
            (a.toNat + j) (by omega) (.inl (by omega))
        exact hkeep.trans loadN_storeN
      | succ i =>
        have hi' := @ih (s.setMem (storeN 4 s.mem a.toNat (s.reg r))) (a + 4) i (by omega) (by omega)
        rw [hnext, Nat.add_assoc, show 4 + 4 * i = 4 * (i + 1) by omega] at hi'
        exact hi'
    · obtain rfl : rs = [] := List.eq_nil_of_length_eq_zero (by omega)
      obtain rfl : i = 0 := by
        rw [List.length_nil] at hi
        omega
      exact loadN_storeN

end Machine

/-! ### Routines -/

/-- The blocks of a routine in their order, with their labels. -/
abbrev Program (L : Type) := List (L × List (Instr L))

/-- The code with its surroundings: `addr` says where in memory a piece of code is, `ext` what the routines do that are
called and are not in it. -/
structure Env (L : Type) where
  prog : Program L
  addr : List (Instr L) → UInt32
  ext : L → Option (Machine → Option Machine)

section
variable {L : Type} [DecidableEq L] (E : Env L)

/-- What is executed from a label on. -/
def Env.code (l : L) : List (Instr L) := (E.prog.dropWhile fun x => x.1 ≠ l).flatMap (·.2)

/-- The address that is returned to and the state then; a call must return behind itself. -/
def exec : Nat → List (Instr L) → Machine → Option (UInt32 × Machine)
  | 0, _, _ => none
  | _, [], _ => none
  | n + 1, i :: is, s =>
    match i with
    | .op o => (o.apply s).bind (exec n is)
    | .b l => exec n (E.code l) s
    | .bc c l => if c.holds s then exec n (E.code l) s else exec n is s
    | .cbz r l => if s.reg r = 0 then exec n (E.code l) s else exec n is s
    | .bl l =>
      let s := s.set .lr (E.addr is)
      (E.ext l).elim ((exec n (E.code l) s).bind fun r => if r.1 = E.addr is then exec n is r.2 else none)
        fun f => (f s).bind (exec n is)
    | .bxLr => some (s.reg .lr, s)
    | .popPc rs =>
      let a := s.reg .sp
      let pc := loadN 4 s.mem (a + 4 * UInt32.ofNat rs.length).toNat
      some (pc, (s.popRegs a rs).set .sp (a + 4 * UInt32.ofNat rs.length + 4))
    | .bkpt => none

/-- The code returns, and then `Q` holds of the address it returns to and of the state. -/
def Ends (is : List (Instr L)) (s : Machine) (Q : UInt32 → Machine → Prop) : Prop :=
  ∃ n r, exec E n is s = some r ∧ Q r.1 r.2

variable {E} {is : List (Instr L)} {s t : Machine} {Q Q' : UInt32 → Machine → Prop} {r : UInt32 × Machine} {n k : Nat} {l : L}
  {o : Op} {c : Cond} {q : Reg}

/-! ### Rules -/

theorem exec_op : exec E (n + 1) (.op o :: is) s = (o.apply s).bind (exec E n is) := rfl

theorem exec_bc : exec E (n + 1) (.bc c l :: is) s = if c.holds s then exec E n (E.code l) s else exec E n is s := rfl

theorem exec_cbz : exec E (n + 1) (.cbz q l :: is) s = if s.reg q = 0 then exec E n (E.code l) s else exec E n is s := rfl

theorem exec_bl (hext : E.ext l = none) : exec E (n + 1) (.bl l :: is) s =
    (exec E n (E.code l) (s.set .lr (E.addr is))).bind fun r => if r.1 = E.addr is then exec E n is r.2 else none := by
  show (E.ext l).elim _ _ = _
  rw [hext, Option.elim_none]

theorem exec_ext {f : Machine → Option Machine} (hext : E.ext l = some f) :
    exec E (n + 1) (.bl l :: is) s = (f (s.set .lr (E.addr is))).bind (exec E n is) := by
  show (E.ext l).elim _ _ = _
  rw [hext, Option.elim_some]

theorem exec_succ (h : exec E n is s = some r) : exec E (n + 1) is s = some r := by
  induction n generalizing is s r with
  | zero => cases h
  | succ n ih =>
    cases is with
    | nil => cases h
    | cons i is =>
      cases i with
      | op o =>
        rw [exec_op, Option.bind_eq_some_iff] at h ⊢
        exact h.imp fun t ht => ⟨ht.1, ih ht.2⟩
      | b l => exact ih h
      | bc c l =>
        rw [exec_bc] at h ⊢
        by_cases hc : c.holds s
        · rw [if_pos hc] at h ⊢
          exact ih h
        · rw [if_neg hc] at h ⊢
          exact ih h
      | cbz q l =>
        rw [exec_cbz] at h ⊢
        by_cases hq : s.reg q = 0
        · rw [if_pos hq] at h ⊢
          exact ih h
        · rw [if_neg hq] at h ⊢
          exact ih h
      | bl l =>
        cases hext : E.ext l with
        | some f =>
          rw [exec_ext hext, Option.bind_eq_some_iff] at h ⊢
          exact h.imp fun t ht => ⟨ht.1, ih ht.2⟩
        | none =>
          rw [exec_bl hext, Option.bind_eq_some_iff] at h ⊢
          obtain ⟨p, hp, h⟩ := h
          refine ⟨p, ih hp, ?_⟩
          by_cases hret : p.1 = E.addr is
          · rw [if_pos hret] at h ⊢
            exact ih h
          · rw [if_neg hret] at h
            cases h
      | bxLr => exact h
      | popPc rs => exact h
      | bkpt => cases h

theorem exec_le (h : exec E n is s = some r) (hk : n ≤ k) : exec E k is s = some r := by
  induction hk with
  | refl => exact h
  | step _ ih => exact exec_succ ih

theorem Ends.mono (h : Ends E is s Q) (hQ : ∀ pc t, Q pc t → Q' pc t) : Ends E is s Q' := by
  obtain ⟨n, r, hr, hq⟩ := h
  exact ⟨n, r, hr, hQ _ _ hq⟩

/-- A routine does not end in two ways. -/
theorem Ends.and (h : Ends E is s Q) (h' : Ends E is s Q') : Ends E is s fun pc t => Q pc t ∧ Q' pc t := by
  obtain ⟨n, r, hr, hq⟩ := h
  obtain ⟨k, r', hr', hq'⟩ := h'
  have heq := (exec_le hr (Nat.le_max_left n k)).symm.trans (exec_le hr' (Nat.le_max_right n k))
  cases heq
  exact ⟨n, r, hr, hq, hq'⟩

/-- A branch goes on with `A` if `p` holds, and with `B` if not. -/
structure Branch (p A B : Prop) : Prop where
  yes : p → A
  no : ¬ p → B

theorem branch_pos {p A B : Prop} (hp : p) : Branch p A B ↔ A := ⟨fun h => h.yes hp, fun h => ⟨fun _ => h, (absurd hp ·)⟩⟩

theorem branch_neg {p A B : Prop} (hp : ¬ p) : Branch p A B ↔ B := ⟨fun h => h.no hp, fun h => ⟨(absurd · hp), fun _ => h⟩⟩

@[simp] theorem branch_not {p A B : Prop} : Branch (¬ p) A B ↔ Branch p B A :=
  ⟨fun h => ⟨fun hp => h.no (not_not_intro hp), h.yes⟩, fun h => ⟨h.no, fun hp => h.yes (Classical.not_not.1 hp)⟩⟩

/-- A first instruction that only passes on to other code. -/
theorem ends_iff_of_exec {js : List (Instr L)} (h : ∀ n, exec E (n + 1) is s = exec E n js t) :
    Ends E is s Q ↔ Ends E js t Q := by
  constructor
  · rintro ⟨n, r, hr, hq⟩
    exact ⟨n, r, (h n).symm.trans (exec_succ hr), hq⟩
  · rintro ⟨n, r, hr, hq⟩
    exact ⟨n + 1, r, (h n).trans hr, hq⟩

/-- A first instruction that may fault. -/
theorem ends_iff_of_bind {x : Option Machine} {js : List (Instr L)} (h : ∀ n, exec E (n + 1) is s = x.bind (exec E n js)) :
    Ends E is s Q ↔ ∃ t, x = some t ∧ Ends E js t Q := by
  cases x with
  | none =>
    simp only [reduceCtorEq, false_and, exists_false, iff_false]
    rintro ⟨_ | n, r, hr, -⟩
    · cases hr
    · cases (h n).symm.trans hr
  | some t =>
    simp only [Option.some.injEq, exists_eq_left']
    exact ends_iff_of_exec h

@[simp] theorem ends_op : Ends E (.op o :: is) s Q ↔ ∃ t, o.apply s = some t ∧ Ends E is t Q := ends_iff_of_bind fun _ => exec_op

@[simp] theorem ends_b : Ends E (.b l :: is) s Q ↔ Ends E (E.code l) s Q := ends_iff_of_exec fun _ => rfl

@[simp] theorem ends_bc : Ends E (.bc c l :: is) s Q ↔ Branch (c.holds s = true) (Ends E (E.code l) s Q) (Ends E is s Q) := by
  by_cases hc : c.holds s = true
  · rw [branch_pos hc]
    exact ends_iff_of_exec fun _ => if_pos hc
  · rw [branch_neg hc]
    exact ends_iff_of_exec fun _ => if_neg hc

@[simp] theorem ends_cbz : Ends E (.cbz q l :: is) s Q ↔ Branch (s.reg q = 0) (Ends E (E.code l) s Q) (Ends E is s Q) := by
  by_cases hc : s.reg q = 0
  · rw [branch_pos hc]
    exact ends_iff_of_exec fun _ => if_pos hc
  · rw [branch_neg hc]
    exact ends_iff_of_exec fun _ => if_neg hc

theorem ends_bxLr (h : Q (s.reg .lr) s) : Ends E (.bxLr :: is) s Q := ⟨1, _, rfl, h⟩

theorem ends_popPc {rs : List Reg} (h : Q (loadN 4 s.mem (s.reg .sp + 4 * UInt32.ofNat rs.length).toNat)
    ((s.popRegs (s.reg .sp) rs).set .sp (s.reg .sp + 4 * UInt32.ofNat rs.length + 4))) : Ends E (.popPc rs :: is) s Q :=
  ⟨1, _, rfl, h⟩

/-- A call returns behind itself. -/
theorem ends_bl (hext : E.ext l = none) (h : Ends E (E.code l) (s.set .lr (E.addr is)) fun pc t => pc = E.addr is ∧ Ends E is t Q) :
    Ends E (.bl l :: is) s Q := by
  obtain ⟨n, r, hr, hpc, k, r', hr', hq⟩ := h
  refine ⟨max n k + 1, r', ?_, hq⟩
  rw [exec_bl hext, exec_le hr (Nat.le_max_left n k), Option.bind_some, if_pos hpc, exec_le hr' (Nat.le_max_right n k)]

theorem ends_ext {f : Machine → Option Machine} (hext : E.ext l = some f) :
    Ends E (.bl l :: is) s Q ↔ ∃ t, f (s.set .lr (E.addr is)) = some t ∧ Ends E is t Q :=
  ends_iff_of_bind fun _ => exec_ext hext

@[simp high] theorem ends_movc {rd : Reg} {x : Operand} : Ends E (.op (.movc c rd x) :: is) s Q ↔
    Ends E is (s.set rd (if c.holds s then x.eval s else s.reg rd)) Q := by
  have happly : (Op.movc c rd x).apply s = some (s.set rd (if c.holds s then x.eval s else s.reg rd)) := by
    by_cases hc : c.holds s
    · simp only [Op.apply, if_pos hc]
    · have hself : (fun q => if q = rd then s.reg rd else s.reg q) = s.reg := by
        funext q
        by_cases hq : q = rd
        · rw [if_pos hq, hq]
        · rw [if_neg hq]
      simp only [Op.apply, if_neg hc, Machine.set, hself]
  simp only [ends_op, happly, Option.some.injEq, exists_eq_left']

theorem movw_movt {k : UInt32} :
    (k &&& (0xFFFF : UInt32)) &&& (0xFFFF : UInt32) ||| k >>> (16 : UInt32) <<< (16 : UInt32) = k := by
  have hmask : ∀ i, (0xFFFF#32).getLsbD i = decide (i < 16) := fun i => by
    rw [← Nat.testBit_two_pow_sub_one 16 i]
    rfl
  refine UInt32.eq_of_toBitVec_eq (BitVec.eq_of_getLsbD_eq fun i hi => ?_)
  have hlow : (0xFFFF#32)[i] = decide (i < 16) := hmask i
  by_cases h16 : i < 16
  · simp [hmask, h16]
  · simp [hlow, h16, hi, show 16 + (i - 16) = i by omega]

theorem ends_movw_movt {k : UInt32} {rd : Reg} :
    Ends E (.op (.movw rd (k &&& (0xFFFF : UInt32))) :: .op (.movt rd (k >>> (16 : UInt32))) :: is) s Q ↔
      Ends E is (s.set rd k) Q := by
  have hset : (s.set rd (k &&& (0xFFFF : UInt32))).set rd (((k &&& (0xFFFF : UInt32)) &&& (0xFFFF : UInt32)) |||
      k >>> (16 : UInt32) <<< (16 : UInt32)) = s.set rd k := by
    rw [movw_movt]
    simp
    funext q
    split <;> rfl
  rw [← hset]
  simp

/-! ### Rules for several registers -/

/-- The registers have been loaded from `rn` on, and `rn` is behind the words. -/
structure LoadsMany (s t : Machine) (rn : Reg) (rs : List Reg) : Prop where
  holds : t.Holds rs s.mem (s.reg rn).toNat
  base : t.reg rn = s.reg rn + UInt32.ofNat (4 * rs.length)
  reg : ∀ q, q ≠ rn → q ∉ rs → t.reg q = s.reg q
  mem : t.mem = s.mem
  trace : ∃ evs, t.trace = s.trace ++ evs ∧ ∀ e ∈ evs, e.Within (s.reg rn).toNat (4 * rs.length)

/-- The registers have been stored from `rn` on, and `rn` is behind the words. -/
structure StoresMany (s t : Machine) (rn : Reg) (rs : List Reg) : Prop where
  mem : t.mem = (s.storeRegs (s.reg rn) rs).mem
  base : t.reg rn = s.reg rn + UInt32.ofNat (4 * rs.length)
  reg : ∀ q, q ≠ rn → t.reg q = s.reg q
  trace : t.trace = s.trace
  c : t.c = s.c

section
variable {rn : Reg} {rs : List Reg} {ds : List Nat} {x : UInt32}

theorem loadsMany (hnd : rs.Nodup) (hrn : rn ∉ rs) (hfit : (s.reg rn).toNat + 4 * rs.length ≤ 2 ^ 32)
    (hx : x = UInt32.ofNat (4 * rs.length)) :
    LoadsMany s ((s.loadRegs (s.reg rn) rs).set rn (s.reg rn + x)) rn rs where
  holds := (Machine.holds_loadRegs hnd hfit).congr fun _ hq => if_neg (ne_of_mem_of_not_mem hq hrn)
  base := (if_pos rfl).trans (congrArg _ hx)
  reg _ hq hqs := (if_neg hq).trans (Machine.reg_loadRegs_of_not_mem hqs)
  mem := Machine.mem_loadRegs
  trace := Machine.trace_loadRegs hfit

theorem storesMany (hx : x = UInt32.ofNat (4 * rs.length)) :
    StoresMany s ((s.storeRegs (s.reg rn) rs).set rn (s.reg rn + x)) rn rs where
  mem := rfl
  base := (if_pos rfl).trans (congrArg _ hx)
  reg q hq := (if_neg hq).trans (congrFun Machine.reg_storeRegs q)
  trace := Machine.trace_storeRegs
  c := Machine.c_storeRegs

theorem four_mul_ofNat {k : Nat} : 4 * UInt32.ofNat k = UInt32.ofNat (4 * k) := (UInt32.ofNat_mul 4 k).symm

theorem eight_mul_ofNat : 8 * UInt32.ofNat ds.length = UInt32.ofNat (4 * (halves ds).length) := by
  have hlen : (halves ds).length = 2 * ds.length := by
    induction ds with
    | nil => rfl
    | cons i ds ih =>
      rw [halves, List.flatMap_cons, List.length_append, List.length_cons]
      exact (congrArg (2 + ·) ih).trans (Nat.add_comm _ _)
  rw [hlen, ← Nat.mul_assoc, UInt32.ofNat_mul]
  rfl

theorem ends_subs {rd : Reg} {y : Operand} (h : ∀ t, t.reg rd = s.reg rn - y.eval s → (∀ q, q ≠ rd → t.reg q = s.reg q) →
    t.mem = s.mem → t.trace = s.trace → t.c = decide (y.eval s ≤ s.reg rn) → Ends E is t Q) :
    Ends E (.op (.subs rd rn y) :: is) s Q :=
  ends_op.2 ⟨_, rfl, h _ (if_pos rfl) (fun _ hq => if_neg hq) rfl rfl rfl⟩

theorem ends_ldm (hal : (s.reg rn).toNat % 4 = 0) (hnd : rs.Nodup) (hrn : rn ∉ rs)
    (hfit : (s.reg rn).toNat + 4 * rs.length ≤ 2 ^ 32) (h : ∀ t, LoadsMany s t rn rs → Ends E is t Q) :
    Ends E (.op (.ldm rn rs) :: is) s Q :=
  ends_op.2 ⟨_, if_pos hal, h _ (loadsMany hnd hrn hfit four_mul_ofNat)⟩

theorem ends_vldmia (hal : (s.reg rn).toNat % 4 = 0) (hnd : (halves ds).Nodup) (hrn : rn ∉ halves ds)
    (hfit : (s.reg rn).toNat + 4 * (halves ds).length ≤ 2 ^ 32) (h : ∀ t, LoadsMany s t rn (halves ds) → Ends E is t Q) :
    Ends E (.op (.vldmia rn ds) :: is) s Q :=
  ends_op.2 ⟨_, if_pos hal, h _ (loadsMany hnd hrn hfit eight_mul_ofNat)⟩

theorem ends_vld1 (hnd : (halves ds).Nodup) (hrn : rn ∉ halves ds)
    (hfit : (s.reg rn).toNat + 4 * (halves ds).length ≤ 2 ^ 32) (h : ∀ t, LoadsMany s t rn (halves ds) → Ends E is t Q) :
    Ends E (.op (.vld1 rn ds) :: is) s Q :=
  ends_op.2 ⟨_, rfl, h _ (loadsMany hnd hrn hfit eight_mul_ofNat)⟩

theorem ends_stm (hal : (s.reg rn).toNat % 4 = 0) (h : ∀ t, StoresMany s t rn rs → Ends E is t Q) :
    Ends E (.op (.stm rn rs) :: is) s Q :=
  ends_op.2 ⟨_, if_pos hal, h _ (storesMany four_mul_ofNat)⟩

theorem ends_vstmia (hal : (s.reg rn).toNat % 4 = 0) (h : ∀ t, StoresMany s t rn (halves ds) → Ends E is t Q) :
    Ends E (.op (.vstmia rn ds) :: is) s Q :=
  ends_op.2 ⟨_, if_pos hal, h _ (storesMany eight_mul_ofNat)⟩

end

end

end VitaUtility.Thumb
