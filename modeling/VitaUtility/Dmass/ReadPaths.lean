import VitaUtility.Dmass.Copies

/-!
# The two ways to read at an offset

`vop_lseek` and `vop_read` test the vnode's size and then the entry's, `vop_pread` the vnode's only. They agree
but for the one length that `vop_read` does not take.
-/

namespace VitaUtility.Dmass
open VfsState

variable {s : VfsState} {e : Addr} {v : NodePtr} {h : FilePtr} {n : SceVfsNode} {f : FapsDmassFs} {nbyte : UInt32}
  {offset : Int64} {o : Int}

/-- `vop_lseek` to `offset`, and `vop_read` when it has not failed: the count and the bytes. -/
def seekRead (v : NodePtr) (h : FilePtr) (nbyte : UInt32) (offset : Int64) (s : VfsState) :
    Except Fault (Int × List UInt8) := do
  match ← vopLseek ⟨v, h, offset, SCE_SEEK_SET⟩ s with
  | (res, s) =>
  if res < 0 then return (res, []) else
  let (res, data, _) ← vopRead ⟨v, h, nbyte⟩ s
  return (res, data)

/-- What there is to read from `o` on, when `nbyte` bytes are asked for. -/
def readSize (f : FapsDmassFs) (o : Int) (nbyte : UInt32) : Nat := min (toSize (f.stat.stSize - o)) nbyte.toNat

/-- The count and the bytes of a read at `o`. -/
def readReply (f : FapsDmassFs) (o : Int) (nbyte : UInt32) : Except Fault (Int × List UInt8) := do
  let data ← memRead f.data o (readSize f o nbyte)
  return (toSSize (readSize f o nbyte), data)

/-- Both ways read what there is at `offset`, or fail when it is past the end of the file. -/
structure ReadsAgree (s : VfsState) (v : NodePtr) (h : FilePtr) (f : FapsDmassFs) (nbyte : UInt32) (offset : Int64) :
    Prop where
  seek : offset.toInt ≤ f.stat.stSize → seekRead v h nbyte offset s = readReply f offset.toInt nbyte
  pread : offset.toInt ≤ f.stat.stSize → vopPread ⟨v, h, nbyte, offset⟩ s = readReply f offset.toInt nbyte
  seekPast : f.stat.stSize < offset.toInt → ∃ r < 0, seekRead v h nbyte offset s = .ok (r, [])
  preadPast : f.stat.stSize < offset.toInt → ∃ r < 0, vopPread ⟨v, h, nbyte, offset⟩ s = .ok (r, [])

theorem vopLseek_set (hn : s.vnodes.lookup v = some n) (h0 : 0 ≤ offset.toInt) (hle : offset.toInt ≤ n.stSize) :
    vopLseek ⟨v, h, offset, SCE_SEEK_SET⟩ s = .ok (offset.toInt, s.setOffset h offset.toInt) := by
  refine bind_eq_ok.2 ⟨n, node_eq_ok.2 hn, ?_⟩
  dsimp only
  rw [if_pos rfl]
  dsimp only
  rw [if_neg (by omega)]
  rfl

theorem vopLseek_past (hn : s.vnodes.lookup v = some n) (hlt : n.stSize < offset.toInt) :
    vopLseek ⟨v, h, offset, SCE_SEEK_SET⟩ s = .ok (sceError 0x80010016, s) := by
  refine bind_eq_ok.2 ⟨n, node_eq_ok.2 hn, ?_⟩
  dsimp only
  rw [if_pos rfl]
  dsimp only
  rw [if_pos (.inl hlt)]
  rfl

/-- A read of an open file at `o`; the length `0xdeadbeef` is refused. -/
theorem vopRead_eq (hn : s.vnodes.lookup v = some n) (hd : n.devInfo = some e) (hf : s.entries.lookup e = some f)
    (hopen : opened s v h f) (hle : f.stat.stSize ≤ 0xFFFFFFFF) (ho : (s.files h).offset = o) (h0 : 0 ≤ o)
    (hend : o ≤ f.stat.stSize) : vopRead ⟨v, h, nbyte⟩ s = if nbyte = 0xdeadbeef then .ok (-2, [], s) else
      readReply f o nbyte >>= fun x => .ok (x.1, x.2, s.setOffset h (o + readSize f o nbyte)) := by
  obtain ⟨x, hx⟩ := Option.isSome_iff_exists.1 hopen.1
  unfold vopRead
  simp only [node_eq_ok.2 hn, ok_bind, hd, entry_eq_ok.2 hf, hx]
  rw [ho, if_neg (by omega), if_neg (not_not.2 hopen.2)]
  split
  · rfl
  rw [if_neg (by omega), readReply, bind_assoc]
  have hsize : (if nbyte.toNat ≥ toSize (f.stat.stSize - o) then toSize (f.stat.stSize - o) else nbyte.toNat) =
      readSize f o nbyte := (min_def _ _).symm
  rw [hsize]
  refine bind_congr fun data => ?_
  rw [pure_bind]
  dsimp only
  rfl

theorem vopPread_upTo (hn : s.vnodes.lookup v = some n) (hd : n.devInfo = some e) (hf : s.entries.lookup e = some f)
    (hsize : n.stSize = f.stat.stSize) (hopen : opened s v h f) (hle : f.stat.stSize ≤ 0xFFFFFFFF)
    (hend : offset.toInt ≤ f.stat.stSize) :
    vopPread ⟨v, h, nbyte, offset⟩ s = readReply f offset.toInt nbyte := by
  rw [vopPread_eq]
  rcases lt_or_eq_of_le hend with ho | ho
  · rw [preadCopy_copy hn hd hf hopen (by omega) (by omega), hsize]
    rfl
  · -- at the end `vop_pread` returns without the empty copy
    rw [preadCopy_end hn hd hf hopen (by omega) (by omega)]
    have hnone : readSize f offset.toInt nbyte = 0 := by
      unfold readSize toSize
      omega
    unfold readReply
    rw [hnone]
    rfl

theorem seekRead_upTo (hn : s.vnodes.lookup v = some n) (hd : n.devInfo = some e) (hf : s.entries.lookup e = some f)
    (hsize : n.stSize = f.stat.stSize) (hopen : opened s v h f) (hle : f.stat.stSize ≤ 0xFFFFFFFF)
    (h0 : 0 ≤ offset.toInt) (hend : offset.toInt ≤ f.stat.stSize) : seekRead v h nbyte offset s =
      if nbyte = 0xdeadbeef then .ok (-2, []) else readReply f offset.toInt nbyte := by
  have hopen' : opened (s.setOffset h offset.toInt) v h f := by
    refine ⟨hopen.1, hopen.2.trans ?_⟩
    unfold setOffset
    simp
  unfold seekRead
  rw [vopLseek_set hn h0 (by omega)]
  show (if offset.toInt < 0 then _ else _) = _
  rw [if_neg (not_lt.2 h0), vopRead_eq (s := s.setOffset h offset.toInt) hn hd hf hopen' hle
    (s.setOffset_self h offset.toInt) h0 hend]
  split
  · rfl
  · rw [bind_assoc]
    cases readReply f offset.toInt nbyte <;> rfl

/-- The two ways agree at every offset, for every length but `0xdeadbeef`; that one `vop_read` answers with -2. -/
theorem readsAgree (nbyte : UInt32) (offset : Int64) (hn : s.vnodes.lookup v = some n)
    (hd : n.devInfo = some e) (hf : s.entries.lookup e = some f)
    (hsize : n.stSize = f.stat.stSize) (hopen : opened s v h f) (hle : f.stat.stSize ≤ 0xFFFFFFFF)
    (h0 : 0 ≤ offset.toInt) : (nbyte ≠ 0xdeadbeef → ReadsAgree s v h f nbyte offset) ∧
      (nbyte = 0xdeadbeef → offset.toInt ≤ f.stat.stSize → seekRead v h nbyte offset s = .ok (-2, [])) := by
  refine ⟨fun hb => ⟨fun hend => ?_, fun hend => ?_, fun hlt => ?_, fun hlt => ?_⟩, fun hb hend => ?_⟩
  · rw [seekRead_upTo hn hd hf hsize hopen hle h0 hend, if_neg hb]
  · exact vopPread_upTo hn hd hf hsize hopen hle hend
  · refine ⟨sceError 0x80010016, by decide, ?_⟩
    unfold seekRead
    rw [vopLseek_past hn (by omega)]
    rfl
  · obtain ⟨y, hy, r, hr, rfl⟩ := preadCopy_rejected nbyte offset hn hd hf fun _ _ => by omega
    refine ⟨r, hr, ?_⟩
    rw [vopPread_eq, hy]
    rfl
  · rw [seekRead_upTo hn hd hf hsize hopen hle h0 hend, if_pos hb]

theorem readsAgree_twoBytes : seekRead 1 7 9 0 twoBytes = vopPread ⟨1, 7, 9, 0⟩ twoBytes ∧
    seekRead 1 7 0xdeadbeef 1 twoBytes = .ok (-2, []) := by
  obtain ⟨n, f, hn, hd, hf, hsize, h2, -, -, hopen⟩ := twoBytes_file
  have hagree := (readsAgree 9 0 hn hd hf hsize hopen (by omega) (by decide)).1 (by decide)
  have hdead := (readsAgree 0xdeadbeef 1 hn hd hf hsize hopen (by omega) (by decide)).2 rfl
  refine ⟨(hagree.seek ?_).trans (hagree.pread ?_).symm, hdead ?_⟩ <;>
    · rw [h2]
      decide

/-- `vop_pread` takes the length that `vop_read` refuses. -/
theorem not_readsAgree_deadbeef : ∃ n f, twoBytes.vnodes.lookup 1 = some n ∧ n.devInfo = some 4 ∧
    twoBytes.entries.lookup 4 = some f ∧ isReg f.stat.stMode ∧ n.stSize = f.stat.stSize ∧ f.stat.stSize = 2 ∧
      opened twoBytes 1 7 f ∧ seekRead 1 7 0xdeadbeef 0 twoBytes = .ok (-2, []) ∧
        vopPread ⟨1, 7, 0xdeadbeef, 0⟩ twoBytes = .ok (2, [1, 1]) ∧ ¬ ReadsAgree twoBytes 1 7 f 0xdeadbeef 0 := by
  obtain ⟨n, f, hn, hd, hf, hsize, h2, -, hreg, hopen⟩ := twoBytes_file
  have hseek : seekRead 1 7 0xdeadbeef 0 twoBytes = .ok (-2, []) := by decide +kernel
  have hpread : vopPread ⟨1, 7, 0xdeadbeef, 0⟩ twoBytes = .ok (2, [1, 1]) := by decide +kernel
  refine ⟨n, f, hn, hd, hf, hreg, hsize, h2, hopen, hseek, hpread, fun hagree => ?_⟩
  have heq := (hagree.seek (by rw [h2]; decide)).trans (hagree.pread (by rw [h2]; decide)).symm
  rw [hseek, hpread] at heq
  cases heq

end VitaUtility.Dmass
