import VitaUtility.VfsMountOld.Tree

/-!
# Looking up entries (`fs_mgr.c`)

`getFileEntry` and `getDirEntry` walk from the first entry of the root over the entries whose name the path starts with.
-/

namespace VitaUtility.VfsMountOld
open Dmass (Addr NodePtr Store Fault SceIoStat SCE_S_IFREG SCE_S_IFDIR)

/-- `'0'` -/
def zero : CChar := ⟨0x30, by decide⟩

/-- `path[0] == '0'` -/
def StartsWithZero (path : CStr) : Prop := path.head? = some zero

instance (path : CStr) : Decidable (StartsWithZero path) := inferInstanceAs (Decidable (_ = _))

/-- `(stat->st_mode & bit) != 0` -/
def FileEntry.hasBit (e : FileEntry) (bit : UInt32) : Except Fault Bool :=
  match e.stat with
  | none => .error .null
  | some stat => .ok (stat.stMode &&& bit ≠ 0)

/-- What the two lookups ask of an entry: the bit of one that the path ends at, and whether one that the path goes on
from must be a directory. -/
structure LookupKind where
  bit : UInt32
  checksDir : Bool

/-- The lookup may go on from the entry. -/
def FileEntry.descends (e : FileEntry) (kind : LookupKind) : Except Fault Bool :=
  if kind.checksDir then e.hasBit SCE_S_IFDIR else .ok true

namespace VfsState
variable (s : VfsState)

/-- The loop, with the result and `*ppDirEntry` if it is written. -/
def lookupLoop (kind : LookupKind) : (n : Nat) → (path : CStr) → (dirEntry e2 : Option Addr) →
    Except Fault (Int32 × Option Addr)
  | n, path, dirEntry, e2 =>
    if StartsWithZero path then .ok (0, e2) else
    match dirEntry, n with
    | none, _ => .ok (-1, none)
    | some _, 0 => .error .hang
    | some a, n + 1 => do
      let e ← s.entry a
      if e.name <+: path then
        match path.drop e.name.length with
        | [] => if ← e.hasBit kind.bit then return (0, some a) else return (-1, none)
        | c :: rest =>
          if c = slash then
            if ← e.descends kind then lookupLoop kind n rest e.nextDir (some a) else return (-1, none)
          else return (-1, none)
      else lookupLoop kind n path e.next (some a)

def lookupEntry (kind : LookupKind) (path : CStr) : Except Fault (Int32 × Option Addr) := do
  match ← s.getFileEntryByNode s.rootNode with
  | none => return (-1, none)
  | some r =>
    let pDataPack ← s.pack r
    s.lookupLoop kind s.entries.keys.card path pDataPack.dirEntryRoot pDataPack.dirEntryRoot

end VfsState

def fileKind : LookupKind := ⟨SCE_S_IFREG, true⟩
def dirKind : LookupKind := ⟨SCE_S_IFDIR, false⟩

def VfsState.getFileEntry (s : VfsState) (path : CStr) : Except Fault (Int32 × Option Addr) := s.lookupEntry fileKind path
def VfsState.getDirEntry (s : VfsState) (path : CStr) : Except Fault (Int32 × Option Addr) := s.lookupEntry dirKind path

/-! ### The walk on the tree -/

namespace Forest

/-- `lookupLoop` on the tree. -/
def walk (kind : LookupKind) : (f : Forest) → (path : CStr) → (e2 : Option Addr) → Int32 × Option Addr
  | nil, path, e2 => if StartsWithZero path then (0, e2) else (-1, none)
  | cons x sub next, path, e2 =>
    if StartsWithZero path then (0, e2) else
    if x.name <+: path then
      match path.drop x.name.length with
      | [] => if x.HasBit kind.bit then (0, some x.addr) else (-1, none)
      | c :: rest =>
        if c = slash then
          if kind.checksDir → x.IsDir then sub.walk kind rest (some x.addr) else (-1, none)
        else (-1, none)
    else next.walk kind path (some x.addr)

variable {f sub next : Forest} {x y : Node} {path rest : CStr} {s : VfsState} {p e2 : Option Addr} {kind : LookupKind}
  {e : FileEntry} {n : Nat} {bit : UInt32} {c : CChar}

theorem hasBit_eq (hstat : e.stat = x.stat) (h : x.stat.isSome) : e.hasBit bit = .ok (decide (x.HasBit bit)) := by
  obtain ⟨stat, hs⟩ := Option.isSome_iff_exists.1 h
  rw [FileEntry.hasBit, hstat, hs]
  simp [Node.HasBit, Node.mode, hs]

theorem descends_eq (hstat : e.stat = x.stat) (h : x.stat.isSome) :
    e.descends kind = .ok (decide (kind.checksDir → x.IsDir)) := by
  unfold FileEntry.descends
  cases kind.checksDir with
  | false => rfl
  | true =>
    rw [if_pos rfl, hasBit_eq hstat h]
    simp [Node.IsDir]

/-- The loop walks the tree that the links spell out. -/
theorem lookupLoop_eq (h : s.Holds p f) (hstat : f.All fun x => x.stat.isSome) (hn : f.addrs.length ≤ n) :
    s.lookupLoop kind n path p e2 = .ok (f.walk kind path e2) := by
  induction f generalizing p path e2 n with
  | nil =>
    obtain rfl : p = none := h
    unfold VfsState.lookupLoop walk
    split_ifs <;> rfl
  | cons x sub next ihs ihn =>
    obtain ⟨e, n, rfl, rfl, he, hname, hestat, ⟨hsub, hns⟩, hnext, hnn⟩ := holds_cons h hn
    obtain ⟨hx, hstats, hstatn⟩ := hstat
    unfold VfsState.lookupLoop walk
    by_cases hz : StartsWithZero path
    · rw [if_pos hz, if_pos hz]
    rw [if_neg hz, if_neg hz]
    simp only [VfsState.entry, he, ok_bind, hname]
    by_cases hpre : x.name <+: path
    · rw [if_pos hpre, if_pos hpre]
      cases hdrop : path.drop x.name.length with
      | nil =>
        simp only [hasBit_eq hestat hx, ok_bind, decide_eq_true_eq]
        split <;> rfl
      | cons c rest =>
        by_cases hc : c = slash
        · dsimp only
          rw [if_pos hc, if_pos hc, descends_eq hestat hx, ok_bind]
          by_cases hdir : kind.checksDir → x.IsDir
          · rw [if_pos hdir, if_pos (decide_eq_true hdir)]
            exact ihs hsub hstats hns
          · rw [if_neg hdir, if_neg (by simpa using hdir)]
            rfl
        · dsimp only
          rw [if_neg hc, if_neg hc]
          rfl
    · rw [if_neg hpre, if_neg hpre, ihn hnext hstatn hnn]

theorem walk_zero (h : StartsWithZero path) : f.walk kind path e2 = (0, e2) := by
  cases f <;> exact if_pos h

/-- What a lookup finds is in the tree, or is what it starts with. -/
theorem walk_mem {a : Addr} (h : (f.walk kind path e2).2 = some a) : e2 = some a ∨ a ∈ f.addrs := by
  induction f generalizing path e2 with
  | nil =>
    unfold walk at h
    split at h
    · exact .inl h
    · cases h
  | cons x sub next ihs ihn =>
    rw [addrs, List.mem_cons, List.mem_append]
    unfold walk at h
    split at h
    · exact .inl h
    right
    split at h
    · split at h
      · split at h
        · exact .inl (Option.some.inj h).symm
        · cases h
      · split at h
        · split at h
          · rcases ihs h with h | h
            · exact .inl (Option.some.inj h).symm
            · exact .inr (.inl h)
          · cases h
        · cases h
    · rcases ihn h with h | h
      · exact .inl (Option.some.inj h).symm
      · exact .inr (.inr h)

/-! ### When a lookup is right -/

/-- The lookup returns 0 with the entry that the path names, if that has the bit, and -1 if there is none. -/
def Right (f : Forest) (bit : UInt32) (path : CStr) (r : Int32 × Option Addr) : Prop :=
  (r.1 = 0 ∧ ∃ x, f.Names path x ∧ x.HasBit bit ∧ r.2 = some x.addr) ∨
    (r.1 = -1 ∧ ¬ ∃ x, f.Names path x ∧ x.HasBit bit)

/-- Nothing leads the walk astray: after a `/` the path does not go on with `'0'`; no entry that the path names comes
after one whose name is another prefix of the path; and an entry is come to through directories only, `dirs` when all so
far are. -/
def Clear (kind : LookupKind) : (f : Forest) → (dirs : Bool) → (path : CStr) → Prop
  | nil, _, _ => True
  | cons x sub next, dirs, path =>
    if x.name <+: path then
      match path.drop x.name.length with
      | [] => x.HasBit kind.bit → dirs
      | c :: rest =>
        if c = slash then (kind.checksDir → x.IsDir) →
          ¬ StartsWithZero rest ∧ sub.Clear kind (dirs && decide x.IsDir) rest
        else dirs → ¬ ∃ y, next.Names path y ∧ y.HasBit kind.bit
    else next.Clear kind dirs path

/-- `Right` for a walk that is not in directories only: it must fail. -/
def RightFrom (f : Forest) (bit : UInt32) (dirs : Bool) (path : CStr) (r : Int32 × Option Addr) : Prop :=
  (r.1 = 0 ∧ ∃ x, dirs ∧ f.Names path x ∧ x.HasBit bit ∧ r.2 = some x.addr) ∨
    (r.1 = -1 ∧ ¬ ∃ x, dirs ∧ f.Names path x ∧ x.HasBit bit)

theorem rightFrom_congr {g : Forest} {dirs dirs' : Bool} {path' : CStr} {r : Int32 × Option Addr}
    (h : ∀ y, (dirs ∧ f.Names path y) ↔ (dirs' ∧ g.Names path' y)) :
    f.RightFrom bit dirs path r ↔ g.RightFrom bit dirs' path' r := by
  unfold RightFrom
  simp only [← and_assoc, h]

/-- The walk is right exactly when nothing leads it astray. -/
theorem walk_rightFrom {dirs : Bool} (hn : f.All fun x => IsName x.name) (hu : f.Unique) (hnd : f.addrs.Nodup)
    (hz : ¬ StartsWithZero path) :
    f.RightFrom kind.bit dirs path (f.walk kind path e2) ↔ f.Clear kind dirs path := by
  induction f generalizing path dirs e2 with
  | nil =>
    refine iff_of_true (.inr ⟨?_, ?_⟩) trivial
    · rw [walk, if_neg hz]
    · rintro ⟨y, -, hy, -⟩
      exact not_names_nil hy
  | cons x sub next ihs ihn =>
    obtain ⟨hx, hns, hnn⟩ := hn
    obtain ⟨hfresh, hus, hun⟩ := hu
    rw [addrs, List.nodup_cons, List.nodup_append, List.mem_append, not_or] at hnd
    obtain ⟨⟨hxs, -⟩, hnds, hndn, -⟩ := hnd
    unfold walk Clear
    rw [if_neg hz]
    by_cases hpre : x.name <+: path
    · rw [if_pos hpre, if_pos hpre]
      have hpath := List.prefix_iff_eq_append.1 hpre
      cases hdrop : path.drop x.name.length with
      | nil =>
        rw [hdrop, List.append_nil] at hpath
        subst hpath
        unfold RightFrom
        simp only [names_self hx hnn hfresh]
        by_cases hbit : x.HasBit kind.bit
        · simp [hbit]
        · simp [hbit]
      | cons c rest =>
        rw [hdrop] at hpath
        by_cases hc : c = slash
        · subst hc
          subst hpath
          dsimp only
          rw [if_pos rfl, if_pos rfl]
          by_cases hdir : kind.checksDir → x.IsDir
          · rw [if_pos hdir]
            by_cases hzr : StartsWithZero rest
            · -- the entry that was gone on from is returned
              rw [walk_zero hzr]
              refine iff_of_false ?_ fun h => (h hdir).1 hzr
              rintro (⟨-, y, -, hy, -, heq⟩ | ⟨h, -⟩)
              · have hmem := ((names_inner hx hnn hfresh).1 hy).2.mem_addrs
                rw [← Option.some.inj heq] at hmem
                exact hxs hmem
              · cases h
            · have hclear : ((kind.checksDir → x.IsDir) → ¬ StartsWithZero rest ∧
                  sub.Clear kind (dirs && decide x.IsDir) rest) ↔ sub.Clear kind (dirs && decide x.IsDir) rest :=
                ⟨fun h => (h hdir).2, fun h _ => ⟨hzr, h⟩⟩
              rw [hclear, ← ihs hns hus hnds hzr]
              refine rightFrom_congr fun y => ?_
              rw [names_inner hx hnn hfresh, Bool.and_eq_true, decide_eq_true_eq, and_assoc]
          · rw [if_neg hdir]
            refine iff_of_true (.inr ⟨rfl, ?_⟩) fun h => absurd h hdir
            rintro ⟨y, -, hy, -⟩
            exact hdir fun _ => ((names_inner hx hnn hfresh).1 hy).1
        · have hnames : ∀ y, (cons x sub next).Names path y ↔ next.Names path y := by
            subst hpath
            exact fun y => names_after (by simp) fun rest' => by simp [hc]
          dsimp only
          rw [if_neg hc, if_neg hc]
          unfold RightFrom
          simp [hnames]
    · rw [if_neg hpre, if_neg hpre, ← ihn hnn hun hndn hz]
      refine rightFrom_congr fun y => and_congr_right fun _ => names_after ?_ fun rest => ?_
      · rintro rfl
        exact hpre (List.prefix_refl _)
      · rintro rfl
        exact hpre (List.prefix_append _ _)

/-- The first entry of the root. -/
def firstAddr : Forest → Option Addr
  | nil => none
  | cons x _ _ => some x.addr

/-- At the root a path that starts with `'0'` gets the first entry, which may be the right one. -/
def ClearRoot (kind : LookupKind) (f : Forest) (path : CStr) : Prop :=
  if StartsWithZero path then ∃ x sub next, f = cons x sub next ∧ path = x.name ∧ x.HasBit kind.bit
  else f.Clear kind true path

theorem walk_right (h : f.IsTree) :
    f.Right kind.bit path (f.walk kind path f.firstAddr) ↔ f.ClearRoot kind path := by
  unfold ClearRoot
  by_cases hz : StartsWithZero path
  · rw [if_pos hz, walk_zero hz]
    constructor
    · rintro (⟨-, y, hy, hbit, heq⟩ | ⟨h, -⟩)
      · cases f with
        | nil => exact absurd hy not_names_nil
        | cons x sub next =>
          have hnd := h.addrs
          rw [addrs, List.nodup_cons, List.mem_append, not_or] at hnd
          have hx : x.addr = y.addr := Option.some.inj heq
          rcases names_cons.1 hy with ⟨hpath, rfl⟩ | ⟨rest, -, -, hy⟩ | hy
          · exact ⟨y, sub, next, rfl, hpath, hbit⟩
          · exact absurd (hx ▸ hy.mem_addrs) hnd.1.1
          · exact absurd (hx ▸ hy.mem_addrs) hnd.1.2
      · cases h
    · rintro ⟨x, sub, next, rfl, rfl, hbit⟩
      exact .inl ⟨rfl, x, names_cons.2 (.inl ⟨rfl, rfl⟩), hbit, rfl⟩
  · have hwalk : f.RightFrom kind.bit true path (f.walk kind path f.firstAddr) ↔ f.Clear kind true path :=
      walk_rightFrom h.names h.unique h.addrs hz
    rw [if_neg hz, ← hwalk]
    unfold Right RightFrom
    simp

theorem firstAddr_eq (h : s.Holds p f) : p = f.firstAddr := by
  cases f with
  | nil => exact h
  | cons x sub next => exact h.1

end Forest

/-- The tree hangs from the object of the root node. -/
structure VfsState.Root (s : VfsState) (f : Forest) (r : Addr) (d : DataPack) : Prop where
  found : s.getFileEntryByNode s.rootNode = .ok (some r)
  pack : s.packs.lookup r = some d
  holds : s.Holds d.dirEntryRoot f

theorem VfsState.lookupEntry_eq {s : VfsState} {f : Forest} {r : Addr} {d : DataPack} {kind : LookupKind} {path : CStr}
    (h : s.Root f r d) (hstat : f.All fun x => x.stat.isSome) (hnd : f.addrs.Nodup) :
    s.lookupEntry kind path = .ok (f.walk kind path f.firstAddr) := by
  rw [lookupEntry, h.found, ok_bind]
  dsimp only
  rw [VfsState.pack, h.pack, ok_bind, Forest.lookupLoop_eq h.holds hstat (Forest.length_le_keys h.holds hnd),
    ← Forest.firstAddr_eq h.holds]

/-- Both lookups are right exactly for the paths on which nothing leads them astray. -/
theorem lookup_right_iff (s : VfsState) (f : Forest) (r : Addr) (d : DataPack) (h : s.Root f r d) (hf : f.IsTree)
    (path : CStr) :
    ((∃ res, s.getFileEntry path = .ok res ∧ f.Right SCE_S_IFREG path res) ↔ f.ClearRoot fileKind path) ∧
      ((∃ res, s.getDirEntry path = .ok res ∧ f.Right SCE_S_IFDIR path res) ↔ f.ClearRoot dirKind path) := by
  have hkind (kind : LookupKind) : (∃ res, s.lookupEntry kind path = .ok res ∧ f.Right kind.bit path res) ↔
      f.ClearRoot kind path := by
    rw [VfsState.lookupEntry_eq h hf.stats hf.addrs, ← Forest.walk_right hf]
    exact ⟨fun ⟨res, hres, hright⟩ => (Except.ok.inj hres) ▸ hright, fun h => ⟨_, rfl, h⟩⟩
  exact ⟨hkind fileKind, hkind dirKind⟩

def nameF : CStr := [⟨0x66, by decide⟩]
def nameFG : CStr := [⟨0x66, by decide⟩, ⟨0x67, by decide⟩]
def nameE : CStr := [⟨0x65, by decide⟩]

/-- The root has the files `f` and `fg` and the directory `e`. -/
def sampleTree : Forest :=
  .cons ⟨0x10, nameF, some { stMode := SCE_S_IFREG }⟩ .nil
    (.cons ⟨0x20, nameFG, some { stMode := SCE_S_IFREG }⟩ .nil
      (.cons ⟨0x30, nameE, some { stMode := SCE_S_IFDIR }⟩ .nil .nil))

def sampleState : VfsState where
  packs := Finmap.singleton 1 { node := some 7, dirEntryRoot := some 0x10 }
  lastObj := some 1
  entries := ((Finmap.singleton 0x10 { next := some 0x20, name := nameF, stat := some { stMode := SCE_S_IFREG } }).insert
    0x20 { next := some 0x30, name := nameFG, stat := some { stMode := SCE_S_IFREG } }).insert
    0x30 { name := nameE, stat := some { stMode := SCE_S_IFDIR } }
  rootNode := some 7

theorem sampleState_root : sampleState.Root sampleTree 1 { node := some 7, dirEntryRoot := some 0x10 } :=
  ⟨rfl, rfl, rfl, _, rfl, rfl, rfl, rfl, rfl, _, rfl, rfl, rfl, rfl, rfl, _, rfl, rfl, rfl, rfl, rfl⟩

theorem sampleTree_isTree : sampleTree.IsTree where
  names := ⟨⟨by decide, by decide⟩, trivial, ⟨by decide, by decide⟩, trivial, ⟨by decide, by decide⟩, trivial, trivial⟩
  unique := ⟨by decide, trivial, by decide, trivial, by decide, trivial, trivial⟩
  addrs := by decide
  stats := ⟨rfl, trivial, rfl, trivial, rfl, trivial, trivial⟩

theorem lookup_right_first : ∃ res, sampleState.getFileEntry nameF = .ok res ∧ sampleTree.Right SCE_S_IFREG nameF res := by
  refine (lookup_right_iff _ _ _ _ sampleState_root sampleTree_isTree nameF).1.2 ?_
  rw [Forest.ClearRoot, if_neg (by decide), sampleTree, Forest.Clear, if_pos (List.prefix_refl _)]
  exact fun _ => rfl

/-- `fg` is not found behind `f`, and `e/0` gets the directory `e`. -/
theorem hiddenFile_fail :
    (sampleState.getFileEntry nameFG = .ok (-1, none) ∧
      ∃ x, sampleTree.Names nameFG x ∧ x.HasBit SCE_S_IFREG) ∧
    (sampleState.getFileEntry (nameE ++ [slash, zero]) = .ok (0, some 0x30) ∧
      ¬ ∃ x, sampleTree.Names (nameE ++ [slash, zero]) x) ∧
    ¬ ∃ res, sampleState.getFileEntry nameFG = .ok res ∧ sampleTree.Right SCE_S_IFREG nameFG res := by
  have hab : sampleState.getFileEntry nameFG = .ok (-1, none) := rfl
  have hnames : ∃ x, sampleTree.Names nameFG x ∧ x.HasBit SCE_S_IFREG :=
    ⟨_, Forest.names_cons.2 (.inr (.inr (Forest.names_cons.2 (.inl ⟨rfl, rfl⟩)))), by decide⟩
  refine ⟨⟨hab, hnames⟩, ⟨rfl, ?_⟩, ?_⟩
  · rintro ⟨x, hx⟩
    simp [sampleTree, Forest.names_cons, Forest.not_names_nil, nameF, nameFG, nameE, slash] at hx
  · rintro ⟨res, hres, hright⟩
    obtain rfl := Except.ok.inj (hab.symm.trans hres)
    rcases hright with ⟨h, -⟩ | ⟨-, h⟩
    · cases h
    · exact h hnames

end VitaUtility.VfsMountOld
