import Mathlib.Data.List.GetD
import VitaUtility.Lib.Bytes
import VitaUtility.Lib.Memory
import VitaUtility.VfsMountOld.State

/-!
# Files backed by memory (`sysroot_kblparam.c`, `map_conf1.c`)

The callbacks of such a file copy between the caller's buffer and memory. What they transfer is cut at the file size, and
the `seek` of the handle advances by it.
-/

namespace VitaUtility.VfsMountOld

/-- What a callback does: its result, the bytes of memory it copies from or to, what it copies to (the caller's buffer for
a read, memory for a write) as it is afterwards, and the handle. -/
structure Transfer where
  res : Int32
  addr : Nat
  count : Nat
  dest : Mem
  data : DataPack

namespace DataPack
variable (data : DataPack)

/-- `int readable_byte = data->size - data->seek` -/
def readableByte : Int32 := Int32.ofInt (data.size - data.seek)

/-- `if(size > readable_byte) size = readable_byte`, a comparison of unsigned numbers. -/
def clamp (size : UInt32) : UInt32 := if data.readableByte.toUInt32 < size then data.readableByte.toUInt32 else size

end DataPack

/-- A callback that reads from `src`. -/
def readFrom (src : Nat) (m : Mem) (data : DataPack) (pData : Mem) (size : UInt32) : Transfer :=
  if data.readableByte = 0 then ⟨0, src, 0, pData, data⟩ else
  let size := data.clamp size
  ⟨size.toInt32, src, size.toNat, memcpy pData (fun i => m (src + i)) size.toNat, { data with seek := data.seek + size.toNat }⟩

/-- A callback that writes to `dst`. -/
def writeTo (dst : Nat) (m : Mem) (data : DataPack) (pData : Mem) (size : UInt32) : Transfer :=
  if data.readableByte = 0 then ⟨0, dst, 0, m, data⟩ else
  let size := data.clamp size
  ⟨size.toInt32, dst, size.toNat, memcpyAt m dst pData size.toNat, { data with seek := data.seek + size.toNat }⟩

/-- Where the buffers are: the answer of `ksceKernelGetSysrootBuffer`, and `map_conf1_data`. -/
structure Buffers where
  sysrootBuffer : Nat
  mapConf1Data : Nat

inductive MemFile where
  | kblparam | mapConf1 | mapMem1

namespace Buffers
variable (B : Buffers)

def readKblparamCb (m : Mem) : DataPack → Mem → UInt32 → Transfer := readFrom B.sysrootBuffer m
def writeKblparamCb (m : Mem) : DataPack → Mem → UInt32 → Transfer := writeTo B.sysrootBuffer m

def openMapMem1Cb (m : Mem) (data : DataPack) : DataPack := { data with size := (load32 m (B.mapConf1Data + 4)).toNat }

def readMapMem1Cb (m : Mem) : DataPack → Mem → UInt32 → Transfer := readFrom (load32 m B.mapConf1Data).toNat m
def writeMapMem1Cb (m : Mem) : DataPack → Mem → UInt32 → Transfer := writeTo (load32 m B.mapConf1Data).toNat m

def readMapConf1Cb (m : Mem) : DataPack → Mem → UInt32 → Transfer := readFrom B.mapConf1Data m
def writeMapConf1Cb (m : Mem) : DataPack → Mem → UInt32 → Transfer := writeTo B.mapConf1Data m

def readCb : MemFile → Mem → DataPack → Mem → UInt32 → Transfer
  | .kblparam => B.readKblparamCb
  | .mapConf1 => B.readMapConf1Cb
  | .mapMem1 => B.readMapMem1Cb

def writeCb : MemFile → Mem → DataPack → Mem → UInt32 → Transfer
  | .kblparam => B.writeKblparamCb
  | .mapConf1 => B.writeMapConf1Cb
  | .mapMem1 => B.writeMapMem1Cb

/-- The `seek` and `size` that `vfs_open` gives a handle of the file. -/
def openPack : MemFile → Mem → DataPack
  | .kblparam, _ => { size := 0x200 }
  | .mapConf1, _ => { size := 8 }
  | .mapMem1, m => B.openMapMem1Cb m { size := 0 }

/-- Where the bytes of the file are. -/
def base : MemFile → Mem → Nat
  | .kblparam, _ => B.sysrootBuffer
  | .mapConf1, _ => B.mapConf1Data
  | .mapMem1, m => (load32 m B.mapConf1Data).toNat

def length : MemFile → Mem → Nat
  | .kblparam, _ => 0x200
  | .mapConf1, _ => 8
  | .mapMem1, m => (load32 m (B.mapConf1Data + 4)).toNat

end Buffers

/-! ### One call -/

/-- The handle of a file of `N` bytes is at `p`. -/
structure DataPack.At (data : DataPack) (p N : Nat) : Prop where
  seek : data.seek = p
  size : data.size = N
  le : p ≤ N
  lt : N < 2 ^ 32

section
variable {data : DataPack} {m pData : Mem} {size : UInt32} {p N a : Nat}

theorem DataPack.At.readableByte (h : data.At p N) : data.readableByte = Int32.ofInt (N - p : Nat) := by
  rw [DataPack.readableByte, h.seek, h.size, Int.ofNat_sub h.le]

theorem toNat_ofInt (h : a < 2 ^ 32) : (Int32.ofInt a).toUInt32.toNat = a := by
  show (BitVec.ofInt 32 (a : Int)).toNat = a
  rw [BitVec.ofInt_natCast, BitVec.toNat_ofNat, Nat.mod_eq_of_lt h]

theorem DataPack.At.toNat_readableByte (h : data.At p N) : data.readableByte.toUInt32.toNat = N - p := by
  have hlt := h.lt
  rw [h.readableByte, toNat_ofInt (by omega)]

theorem DataPack.At.readableByte_eq_zero (h : data.At p N) : data.readableByte = 0 ↔ N - p = 0 := by
  constructor
  · intro hzero
    have hr := h.toNat_readableByte
    rw [hzero] at hr
    exact hr.symm
  · intro hzero
    rw [h.readableByte, hzero]
    rfl

theorem DataPack.At.clamp (h : data.At p N) : data.clamp size = UInt32.ofNat (min size.toNat (N - p)) := by
  have hr := h.toNat_readableByte
  unfold DataPack.clamp
  split <;> rename_i hlt <;> rw [UInt32.lt_iff_toNat_lt, hr] at hlt
  · rw [Nat.min_eq_right (by omega), ← hr, UInt32.ofNat_toNat]
  · rw [Nat.min_eq_left (by omega), UInt32.ofNat_toNat]

theorem toNat_ofNat_min : (UInt32.ofNat (min size.toNat a)).toNat = min size.toNat a :=
  UInt32.toNat_ofNat_of_lt' (Nat.lt_of_le_of_lt (Nat.min_le_left _ _) size.toNat_lt)

theorem DataPack.At.advance (h : data.At p N) {n : Nat} (hn : n ≤ N - p) :
    DataPack.At { data with seek := data.seek + n } (p + n) N := by
  have hle := h.le
  exact ⟨by simp [h.seek], h.size, by omega, h.lt⟩

/-- What a call transfers: as much as is asked for and left. -/
def Transfer.Moves (t : Transfer) (data : DataPack) (a n : Nat) (dest : Mem) : Prop :=
  t = ⟨(UInt32.ofNat n).toInt32, a, n, dest, { data with seek := data.seek + n }⟩

theorem readFrom_moves (h : data.At p N) : (readFrom a m data pData size).Moves data a (min size.toNat (N - p))
    (memcpy pData (fun i => m (a + i)) (min size.toNat (N - p))) := by
  unfold Transfer.Moves readFrom
  split
  · rename_i hzero
    rw [h.readableByte_eq_zero.1 hzero, Nat.min_zero]
    simp
  · simp only [h.clamp, toNat_ofNat_min]

theorem writeTo_moves (h : data.At p N) : (writeTo a m data pData size).Moves data a (min size.toNat (N - p))
    (memcpyAt m a pData (min size.toNat (N - p))) := by
  unfold Transfer.Moves writeTo
  split
  · rename_i hzero
    rw [h.readableByte_eq_zero.1 hzero, Nat.min_zero]
    simp
  · simp only [h.clamp, toNat_ofNat_min]

end

/-! ### Successive calls -/

abbrev Request := Mem × UInt32

/-- The data that successive reads return, while memory stays `m`. -/
def readAll (cb : DataPack → Mem → UInt32 → Transfer) : DataPack → List Request → List UInt8
  | _, [] => []
  | data, (pData, size) :: reqs =>
    let t := cb data pData size
    fill t.dest t.res.toUInt32.toNat ++ readAll cb t.data reqs

def writeAll (cb : Mem → DataPack → Mem → UInt32 → Transfer) : Mem → DataPack → List Request → Mem
  | m, _, [] => m
  | m, data, (pData, size) :: reqs =>
    let t := cb m data pData size
    writeAll cb t.dest t.data reqs

def total : List Request → Nat
  | [] => 0
  | (_, size) :: reqs => size.toNat + total reqs

def written : List Request → List UInt8
  | [] => []
  | (pData, size) :: reqs => fill pData size.toNat ++ written reqs

/-- The data that each of the requests brings, cut at what is left of `room` bytes. -/
def chunks : (room : Nat) → List Request → List (List UInt8)
  | _, [] => []
  | room, (pData, size) :: reqs => fill pData (min size.toNat room) :: chunks (room - min size.toNat room) reqs

/-- The byte `q` of the last chunk that is longer than `q`, and `b` if there is none. -/
def lastByte (q : Nat) (b : UInt8) (ds : List (List UInt8)) : UInt8 := ds.foldl (fun b d => d.getD q b) b

/-- A read that comes after others returns what is at the start of the content `c`. -/
def Repeats (c : Mem) (p N : Nat) (reqs : List Request) : Prop :=
  ∀ before r after, reqs = before ++ r :: after → ∀ j < r.2.toNat, p + total before + j < N → c (p + total before + j) = c j

section
variable {data : DataPack} {m c pData : Mem} {size : UInt32} {p q N a n : Nat} {reqs : List Request} {b : UInt8}
  {d : List UInt8} {ds : List (List UInt8)} {r : Request}

theorem repeats_nil : Repeats c p N [] := by
  intro before r after h
  simp at h

theorem repeats_cons : Repeats c p N ((pData, size) :: reqs) ↔
    (∀ j < min size.toNat (N - p), c (p + j) = c j) ∧ Repeats c (p + size.toNat) N reqs := by
  constructor
  · intro h
    refine ⟨fun j hj => ?_, ?_⟩
    · have := h [] (pData, size) reqs rfl j (by show j < size.toNat; omega)
      rw [total, Nat.add_zero] at this
      exact this (by omega)
    · rintro before r after rfl
      have := h ((pData, size) :: before) r after rfl
      rw [total, ← Nat.add_assoc] at this
      exact this
  · rintro ⟨hhead, htail⟩ before r after h j hj hlt
    rcases List.cons_eq_append_iff.1 h with ⟨rfl, hr⟩ | ⟨before', rfl, rfl⟩
    · obtain ⟨rfl, -⟩ := List.cons.inj hr
      rw [total, Nat.add_zero] at hlt ⊢
      exact hhead j (by change j < size.toNat at hj; omega)
    · rw [total, ← Nat.add_assoc] at hlt ⊢
      exact htail before' r after rfl j hj hlt

theorem repeats_end (h : N ≤ p) : Repeats c p N reqs := by
  intro before r after _ j _ hlt
  omega

theorem fill_add : fill c (n + a) = fill c n ++ fill (fun i => c (n + i)) a := by
  rw [fill, fill, fill, List.range_add, List.map_append, List.map_map]
  rfl

theorem fill_congr {c' : Mem} (h : ∀ i < n, c i = c' i) : fill c n = fill c' n :=
  List.map_congr_left fun i hi => h i (List.mem_range.1 hi)

theorem fill_append_eq_iff {c' : Mem} {xs ys : List UInt8} :
    fill c n ++ xs = fill c' n ++ ys ↔ (∀ i < n, c i = c' i) ∧ xs = ys := by
  constructor
  · intro h
    obtain ⟨hfill, hrest⟩ := List.append_inj h (by simp)
    refine ⟨fun i hi => ?_, hrest⟩
    have := congrArg (·[i]?) hfill
    simpa [fill, hi] using this
  · rintro ⟨hfill, rfl⟩
    rw [fill_congr hfill]

/-- The reads return the content from where the handle is exactly if what comes later repeats the start. -/
theorem readAll_eq_iff (h : data.At p N) : readAll (readFrom a m) data reqs =
    fill (fun i => m (a + (p + i))) (min (total reqs) (N - p)) ↔ Repeats (fun i => m (a + i)) p N reqs := by
  induction reqs generalizing data p with
  | nil => simp [readAll, total, fill, repeats_nil]
  | cons r reqs ih =>
    obtain ⟨pData, size⟩ := r
    have hmoves : (readFrom a m data pData size).Moves _ _ _ _ := readFrom_moves h
    have hnext := h.advance (Nat.min_le_right size.toNat (N - p))
    have hle := h.le
    rw [readAll, hmoves, repeats_cons]
    show fill _ (UInt32.ofNat _).toInt32.toUInt32.toNat ++ _ = _ ↔ _
    rw [UInt32.toUInt32_toInt32, toNat_ofNat_min]
    have hsplit : min (size.toNat + total reqs) (N - p) =
        min size.toNat (N - p) + min (total reqs) (N - (p + min size.toNat (N - p))) := by omega
    have hcopy : fill (memcpy pData (fun i => m (a + i)) (min size.toNat (N - p))) (min size.toNat (N - p)) =
        fill (fun i => m (a + i)) (min size.toNat (N - p)) := fill_congr fun i hi => if_pos hi
    have hassoc : (fun i => m (a + (p + (min size.toNat (N - p) + i)))) =
        fun i => m (a + (p + min size.toNat (N - p) + i)) := funext fun i => by rw [← Nat.add_assoc p]
    have hrest : Repeats (fun i => m (a + i)) (p + min size.toNat (N - p)) N reqs ↔
        Repeats (fun i => m (a + i)) (p + size.toNat) N reqs := by
      rcases Nat.le_total size.toNat (N - p) with hs | hs
      · rw [Nat.min_eq_left hs]
      · exact iff_of_true (repeats_end (by omega)) (repeats_end (by omega))
    rw [total, hsplit, fill_add, hassoc, hcopy, fill_append_eq_iff, ih hnext, hrest]
    exact and_congr_left' (forall_congr' fun i => imp_congr_right fun _ => eq_comm)

theorem length_written : (written reqs).length = total reqs := by
  induction reqs with
  | nil => rfl
  | cons r reqs ih => rw [written, total, List.length_append, length_fill, ih]

theorem take_fill : (fill c a).take n = fill c (min a n) := by
  rw [fill, fill, ← List.map_take, List.take_range, Nat.min_comm]

theorem flatten_chunks : (chunks n reqs).flatten = (written reqs).take n := by
  induction reqs generalizing n with
  | nil => simp [chunks, written]
  | cons r reqs ih =>
    obtain ⟨pData, size⟩ := r
    rw [chunks, written, List.flatten_cons, ih, List.take_append, length_fill, take_fill]
    congr 2
    omega

theorem lastByte_of_le (h : ∀ d ∈ ds, d.length ≤ q) : lastByte q b ds = b := by
  induction ds with
  | nil => rfl
  | cons d ds ih =>
    obtain ⟨hd, hds⟩ := List.forall_mem_cons.1 h
    rw [lastByte, List.foldl_cons, List.getD_eq_default _ _ hd]
    exact ih hds

theorem memcpyAt_eq_getD : memcpyAt m a pData n (a + q) = (fill pData n).getD q (m (a + q)) := by
  rw [memcpyAt, Nat.add_sub_cancel_left]
  by_cases hq : q < n
  · rw [if_pos (by omega), List.getD_eq_getElem _ _ (by simpa using hq)]
    simp [fill]
  · rw [if_neg (by omega), List.getD_eq_default _ _ (by simpa using hq)]

/-- Each write starts at the start of the buffer. -/
theorem writeAll_apply (h : data.At p N) :
    writeAll (writeTo a) m data reqs (a + q) = lastByte q (m (a + q)) (chunks (N - p) reqs) := by
  induction reqs generalizing data p m with
  | nil => rfl
  | cons r reqs ih =>
    obtain ⟨pData, size⟩ := r
    have hmoves : (writeTo a m data pData size).Moves _ _ _ _ := writeTo_moves h
    have hnext := h.advance (Nat.min_le_right size.toNat (N - p))
    rw [writeAll, hmoves, chunks, lastByte, List.foldl_cons, Nat.sub_sub]
    refine (ih hnext).trans ?_
    rw [← memcpyAt_eq_getD]
    rfl

theorem writeAll_below (h : data.At p N) {i : Nat} (hi : i < a) : writeAll (writeTo a) m data reqs i = m i := by
  induction reqs generalizing data p m with
  | nil => rfl
  | cons r reqs ih =>
    obtain ⟨pData, size⟩ := r
    have hmoves : (writeTo a m data pData size).Moves _ _ _ _ := writeTo_moves h
    have hnext := h.advance (Nat.min_le_right size.toNat (N - p))
    rw [writeAll, hmoves]
    exact (ih hnext).trans (if_neg (by omega))

/-- The writes leave what one write of all the data does exactly if each of its bytes is in the last chunk that is
longer than its position. -/
theorem writeAll_eq_iff (h : data.At p N) : writeAll (writeTo a) m data reqs =
    memcpyAt m a (fun q => (written reqs).getD q 0) (min (total reqs) (N - p)) ↔
    ∀ q < min (total reqs) (N - p), (written reqs).getD q 0 = lastByte q (m (a + q)) (chunks (N - p) reqs) := by
  constructor
  · intro heq q hq
    have := congrFun heq (a + q)
    rw [writeAll_apply h, memcpyAt, if_pos (by omega), Nat.add_sub_cancel_left] at this
    exact this.symm
  · intro hlast
    funext i
    by_cases hi : i < a
    · rw [writeAll_below h hi, memcpyAt, if_neg (by omega)]
    · obtain ⟨q, rfl⟩ := Nat.exists_eq_add_of_le (Nat.le_of_not_lt hi)
      rw [writeAll_apply h, memcpyAt, Nat.add_sub_cancel_left]
      by_cases hq : q < min (total reqs) (N - p)
      · rw [if_pos (by omega), hlast q hq]
      · rw [if_neg (by omega)]
        refine lastByte_of_le fun d hd => ?_
        have hlen := (List.sublist_flatten_of_mem hd).length_le
        rw [flatten_chunks, List.length_take, length_written] at hlen
        omega

end

namespace Buffers
variable {B : Buffers} {k : MemFile} {m m' pData : Mem} {data : DataPack} {p N : Nat} {reqs : List Request}

theorem openPack_at : (B.openPack k m).At 0 (B.length k m) := by
  have hlt : B.length k m < 2 ^ 32 := by
    cases k with
    | kblparam => show 0x200 < 2 ^ 32; decide
    | mapConf1 => show 8 < 2 ^ 32; decide
    | mapMem1 => exact UInt32.toNat_lt _
  cases k <;> exact ⟨rfl, rfl, Nat.zero_le _, hlt⟩

theorem readCb_eq : B.readCb k m = readFrom (B.base k m) m := by
  cases k <;> rfl

theorem writeCb_eq : B.writeCb k m = writeTo (B.base k m) m := by
  cases k <;> rfl

variable (B) in
/-- The bytes of `map_mem1` are not those that say where they are. -/
def Apart (m : Mem) : MemFile → Prop
  | .mapMem1 => ∀ i < 4, ¬ (B.base .mapMem1 m ≤ B.mapConf1Data + i ∧
      B.mapConf1Data + i < B.base .mapMem1 m + B.length .mapMem1 m)
  | _ => True

theorem writeAll_mapMem1 {a : Nat} (hapart : ∀ i < 4, ¬ (a ≤ B.mapConf1Data + i ∧ B.mapConf1Data + i < a + N))
    (hbase : (load32 m B.mapConf1Data).toNat = a) (h : data.At p N) :
    writeAll (B.writeCb .mapMem1) m data reqs = writeAll (writeTo a) m data reqs := by
  induction reqs generalizing m data p with
  | nil => rfl
  | cons r reqs ih =>
    obtain ⟨pData, size⟩ := r
    have hcb : B.writeCb .mapMem1 m = writeTo a m := B.writeCb_eq.trans (congrArg (writeTo · m) hbase)
    have hmoves : (writeTo a m data pData size).Moves _ _ _ _ := writeTo_moves h
    have hnext := h.advance (Nat.min_le_right size.toNat (N - p))
    rw [writeAll, writeAll, hcb, hmoves]
    refine ih ?_ hnext
    have hkeep : load32 (memcpyAt m a pData (min size.toNat (N - p))) B.mapConf1Data = load32 m B.mapConf1Data := by
      refine load32_congr fun i hi => if_neg ?_
      have := hapart i hi
      omega
    rw [hkeep, hbase]

theorem writeAll_eq (h : B.Apart m k) :
    writeAll (B.writeCb k) m (B.openPack k m) reqs = writeAll (writeTo (B.base k m)) m (B.openPack k m) reqs := by
  cases k with
  | kblparam => rfl
  | mapConf1 => rfl
  | mapMem1 => exact writeAll_mapMem1 h rfl openPack_at

end Buffers

/-- Reads in pieces return the content of the file from the start exactly if each piece repeats the start, and writes in
pieces leave the data at the start of the buffer exactly if each byte of it is that of the last chunk that is longer than its
position. -/
theorem chunked_io_iff (B : Buffers) (k : MemFile) (m : Mem) (reqs : List Request) (hapart : B.Apart m k) :
    (readAll (B.readCb k m) (B.openPack k m) reqs =
        fill (fun i => m (B.base k m + i)) (min (total reqs) (B.length k m)) ↔
      Repeats (fun i => m (B.base k m + i)) 0 (B.length k m) reqs) ∧
    (writeAll (B.writeCb k) m (B.openPack k m) reqs =
        memcpyAt m (B.base k m) (fun q => (written reqs).getD q 0) (min (total reqs) (B.length k m)) ↔
      ∀ q < min (total reqs) (B.length k m),
        (written reqs).getD q 0 = lastByte q (m (B.base k m + q)) (chunks (B.length k m) reqs)) := by
  have hopen : (B.openPack k m).At 0 (B.length k m) := B.openPack_at
  have hread := @readAll_eq_iff _ m 0 (B.length k m) (B.base k m) reqs hopen
  have hwrite := @writeAll_eq_iff _ m 0 (B.length k m) (B.base k m) reqs hopen
  simp only [Nat.zero_add, Nat.sub_zero] at hread hwrite
  rw [B.readCb_eq, B.writeAll_eq hapart]
  exact ⟨hread, hwrite⟩

/-- The bytes `0, 1, 0, 1` at 0, which `map_conf1_data` at 8 makes the content of `map_mem1`. -/
def sampleMem : Mem := fun a => if a = 12 then 4 else if a < 4 then UInt8.ofNat (a % 2) else 0

def sampleReqs : List Request := [(fun i => UInt8.ofNat i, 2), (fun i => UInt8.ofNat i, 2)]

theorem chunked_io_repeated :
    readAll (Buffers.readCb ⟨0, 8⟩ .mapMem1 sampleMem) (Buffers.openPack ⟨0, 8⟩ .mapMem1 sampleMem) sampleReqs =
      fill (fun i => sampleMem (0 + i)) 4 ∧
    writeAll (Buffers.writeCb ⟨0, 8⟩ .mapMem1) sampleMem (Buffers.openPack ⟨0, 8⟩ .mapMem1 sampleMem) sampleReqs =
      memcpyAt sampleMem 0 (fun q => (written sampleReqs).getD q 0) 4 := by
  have hbase : Buffers.base ⟨0, 8⟩ .mapMem1 sampleMem = 0 := by decide
  have hlength : Buffers.length ⟨0, 8⟩ .mapMem1 sampleMem = 4 := by decide
  have hapart : Buffers.Apart ⟨0, 8⟩ sampleMem .mapMem1 := by
    intro i _
    rw [hbase, hlength]
    show ¬ (0 ≤ 8 + i ∧ 8 + i < 0 + 4)
    omega
  obtain ⟨hread, hwrite⟩ := chunked_io_iff ⟨0, 8⟩ .mapMem1 sampleMem sampleReqs hapart
  rw [hbase, hlength] at hread hwrite
  exact ⟨hread.2 (repeats_cons.2 ⟨by decide, repeats_cons.2 ⟨by decide, repeats_nil⟩⟩), hwrite.2 (by decide)⟩

def countMem : Mem := fun a => UInt8.ofNat a

/-- The second byte of the parameters is read as the first, and the second byte of the data is written over the first. -/
theorem secondByte_first :
    (readAll (Buffers.readCb ⟨0, 0x300⟩ .kblparam countMem) (Buffers.openPack ⟨0, 0x300⟩ .kblparam countMem)
        [(countMem, 1), (countMem, 1)] = [0, 0] ∧
      fill (fun i => countMem (Buffers.base ⟨0, 0x300⟩ .kblparam countMem + i))
        (min (total [(countMem, 1), (countMem, 1)]) (Buffers.length ⟨0, 0x300⟩ .kblparam countMem)) = [0, 1]) ∧
    (writeAll (Buffers.writeCb ⟨0, 0x300⟩ .kblparam) countMem (Buffers.openPack ⟨0, 0x300⟩ .kblparam countMem)
        [(fun _ => 5, 1), (fun _ => 6, 1)] 0 = 6 ∧ (written [(fun _ => 5, 1), (fun _ => 6, 1)]).getD 0 0 = 5) := by
  decide

end VitaUtility.VfsMountOld
