import Mathlib.Init

/-!
# CMAC over a block function

`E` is any function on `w`-bit blocks, and `poly` what the top bit turns into when a block is doubled in
`GF(2 ^ w)`. The last block of a message is masked with a subkey, a different one when it had to be padded.
-/

namespace VitaUtility.Cmac

variable {w : Nat}

/-- Twice `x` in `GF(2 ^ w)`. -/
def double (poly x : BitVec w) : BitVec w := if x.msb then x <<< 1 ^^^ poly else x <<< 1

def subkey1 (E : BitVec w → BitVec w) (poly : BitVec w) : BitVec w := double poly (E 0)

def subkey2 (E : BitVec w → BitVec w) (poly : BitVec w) : BitVec w := double poly (subkey1 E poly)

/-- The chaining value after the blocks `bs`, from `x` on. -/
def chainFrom (E : BitVec w → BitVec w) (x : BitVec w) (bs : List (BitVec w)) : BitVec w :=
  bs.foldl (fun x b => E (x ^^^ b)) x

def chain (E : BitVec w → BitVec w) (bs : List (BitVec w)) : BitVec w := chainFrom E 0 bs

/-- What the last encryption gets, after the blocks `bs`, when the block `last` is whole. -/
def wholeInput (E : BitVec w → BitVec w) (poly : BitVec w) (bs : List (BitVec w)) (last : BitVec w) : BitVec w :=
  chain E bs ^^^ last ^^^ subkey1 E poly

/-- What it gets when `last` is the padded rest of the message. -/
def paddedInput (E : BitVec w → BitVec w) (poly : BitVec w) (bs : List (BitVec w)) (last : BitVec w) : BitVec w :=
  chain E bs ^^^ last ^^^ subkey2 E poly

section
variable {E : BitVec w → BitVec w} {poly x b last : BitVec w} {bs : List (BitVec w)}

theorem chainFrom_cons : chainFrom E x (b :: bs) = chainFrom E (E (x ^^^ b)) bs := rfl

theorem xor_right_eq_self {x y : BitVec w} : x = x ^^^ y ↔ y = 0 := by
  constructor
  · intro h
    have h' : x ^^^ 0 = x ^^^ y := (BitVec.xor_zero (x := x)).trans h
    exact ((BitVec.xor_right_inj x).1 h').symm
  · rintro rfl
    exact (BitVec.xor_zero (x := x)).symm

theorem xor_eq_zero {x y : BitVec w} : x ^^^ y = 0 ↔ x = y := BitVec.xor_eq_zero_iff

/-- A padded last block is fed in alone only when the padding cancels the second subkey. -/
theorem chain_eq_paddedInput : chain E bs = paddedInput E poly bs last ↔ last = subkey2 E poly := by
  rw [paddedInput, BitVec.xor_assoc, xor_right_eq_self, xor_eq_zero]

end

end VitaUtility.Cmac
