import VitaUtility.VfsMountOld.Lookup

/-!
# Creating entries (`fs_mgr.c`)

`createFileEntry` walks over the entries with a pointer to the link that leads to the next one, which it sets when there
is none. A path is the names of directories and a last name; on a tree in which no name starts with `'0'` the walk goes
through the directories, or fails where one is missing.
-/

namespace VitaUtility.VfsMountOld
open Dmass (Addr NodePtr Store Fault SceIoStat SCE_S_IFREG SCE_S_IFDIR SCE_S_IRUSR SCE_S_IWUSR modifyAt lookup_modifyAt
  lookup_insert_ite)

/-- A `FileEntry **`: the link it points at. -/
inductive Link where
  | root (pDataPack : Addr)
  | next (entry : Addr)
  | nextDir (entry : Addr)

/-- What the heap gives: a block for the `FileEntry`, and whether there is one for the name. -/
structure CreateAnswers where
  entry : Option Addr
  name : Bool

def pathCheck (path : CStr) (c : CChar) : Int32 := if c ∈ path then -1 else 0

namespace VfsState
variable (s : VfsState)

/-- `*ppEntry = entry` -/
def setLink (ppEntry : Link) (entry : Option Addr) : Except Fault VfsState :=
  match ppEntry with
  | .root r => s.modPack r fun d => { d with dirEntryRoot := entry }
  | .next a => s.modEntry a fun e => { e with next := entry }
  | .nextDir a => s.modEntry a fun e => { e with nextDir := entry }

/-- A new entry in the block `entry`, with the next entry `pNext`, at the link `ppEntry`. -/
def newEntry (k : CreateAnswers) (entry : Addr) (ppEntry : Link) (pNext : Option Addr) (path : CStr) :
    Except Fault (Int32 × Option Addr × VfsState) := do
  let s := { s with entries := s.entries.insert entry {} }
  let s ← s.setLink ppEntry (some entry)
  if !k.name then .error .null else
  let s ← s.modEntry entry fun e => { e with next := pNext, name := path }
  return (0, some entry, s)

/-- The branch without an entry. -/
def createHere (k : CreateAnswers) (ppEntry : Link) (path : CStr) : Except Fault (Int32 × Option Addr × VfsState) :=
  if pathCheck path slash < 0 then .ok (-1, none, s) else
  match k.entry with
  | none => .ok (-1, none, s)
  | some entry => s.newEntry k entry ppEntry none path

/-- The loop, with the result, `*ppDirEntry` if it is written, and the state after it. -/
def createLoop (k : CreateAnswers) : (n : Nat) → (path : CStr) → (dirEntry : Option Addr) → (ppEntry : Link) →
    Except Fault (Int32 × Option Addr × VfsState)
  | n, path, dirEntry, ppEntry =>
    if StartsWithZero path then .ok (-1, none, s) else
    match dirEntry, n with
    | none, _ => s.createHere k ppEntry path
    | some _, 0 => .error .hang
    | some a, n + 1 => do
      let e ← s.entry a
      if e.name <+: path then
        match path.drop e.name.length with
        | [] => createLoop k n path e.next (.next a)
        | c :: rest =>
          if c = slash then
            if ← e.hasBit SCE_S_IFDIR then createLoop k n rest e.nextDir (.nextDir a) else
            -- no directory: what is left of the path becomes the name of an entry after it
            match k.entry with
            | none => .error .null
            | some entry => s.newEntry k entry (.next a) e.next path
          else createLoop k n path e.next (.next a)
      else createLoop k n path e.next (.next a)

def createFileEntry (k : CreateAnswers) (path : CStr) : Except Fault (Int32 × Option Addr × VfsState) := do
  match ← s.getFileEntryByNode s.rootNode with
  | none => return (-1, none, s)
  | some r =>
    let pDataPack ← s.pack r
    s.createLoop k s.entries.keys.card path pDataPack.dirEntryRoot (.root r)

def SCE_O_RDONLY : UInt32 := 1
def SCE_O_DIROPEN : UInt32 := 8

def statDirTpl : SceIoStat where
  stMode := SCE_S_IFDIR ||| SCE_S_IRUSR ||| SCE_S_IWUSR
  stCtime := { year := 2020, month := 7, day := 5, hour := 1, minute := 33 }
  stAtime := { year := 2020, month := 7, day := 5, hour := 1, minute := 33 }
  stMtime := { year := 2020, month := 7, day := 5, hour := 1, minute := 33 }

/-- `setToDirEntry`, with a block for the `stat`. -/
def setToDirEntry (entry : Addr) : Except Fault VfsState :=
  s.modEntry entry fun e => { e with openAllowFlags := SCE_O_RDONLY ||| SCE_O_DIROPEN, stat := some statDirTpl }

end VfsState

/-- What is done with a new entry before the next call: it becomes a directory, or gets a `stat`. -/
inductive GivenStat where
  | dir
  | file (stat : SceIoStat)

def GivenStat.stat : GivenStat → SceIoStat
  | dir => VfsState.statDirTpl
  | file stat => stat

/-- A call for the path `dirs/name`. -/
structure CreateCall where
  dirs : List CStr
  name : CStr
  answers : CreateAnswers
  given : GivenStat

def CreateCall.path (call : CreateCall) : CStr := relPath (call.dirs ++ [call.name])

namespace VfsState

def giveStat (s : VfsState) (entry : Addr) : GivenStat → Except Fault VfsState
  | .dir => s.setToDirEntry entry
  | .file stat => s.modEntry entry fun e => { e with stat := some stat }

/-- A call, and what is done with the new entry if there is one. -/
def createStep (s : VfsState) (call : CreateCall) : Except Fault VfsState := do
  match ← s.createFileEntry call.answers call.path with
  | (0, some entry, s) => s.giveStat entry call.given
  | (_, _, s) => return s

end VfsState

/-! ### Adding to a tree -/

namespace Forest

/-- `x` at the end of the directory that the names lead to. -/
def addIn : (f : Forest) → (dirs : List CStr) → (x : Node) → Forest
  | nil, [], x => cons x nil nil
  | nil, _ :: _, _ => nil
  | cons y sub next, [], x => cons y sub (next.addIn [] x)
  | cons y sub next, c :: dirs, x =>
    if y.name = c then cons y (sub.addIn dirs x) next else cons y sub (next.addIn (c :: dirs) x)

/-- The link at the end of that directory, where `ppEntry` leads to the first entry. -/
def endLink : (f : Forest) → (ppEntry : Link) → (dirs : List CStr) → Link
  | nil, ppEntry, _ => ppEntry
  | cons y _ next, _, [] => next.endLink (.next y.addr) []
  | cons y sub next, _, c :: dirs =>
    if y.name = c then sub.endLink (.nextDir y.addr) dirs else next.endLink (.next y.addr) (c :: dirs)

/-- The names lead through directories to the entries `g` of a directory. -/
def Inside : (f : Forest) → (dirs : List CStr) → (g : Forest) → Prop
  | f, [], g => g = f
  | f, c :: dirs, g => ∃ x sub, (x, sub) ∈ f.siblings ∧ x.name = c ∧ x.IsDir ∧ Inside sub dirs g

/-- One of the names leads to an entry that is no directory. -/
def Blocked : (f : Forest) → (dirs : List CStr) → Prop
  | _, [] => False
  | f, c :: dirs => ∃ x sub, (x, sub) ∈ f.siblings ∧ x.name = c ∧ (x.IsDir → Blocked sub dirs)

/-- The directory exists, and no entry of the name in it. -/
def Creatable (f : Forest) (dirs : List CStr) (name : CStr) : Prop := ∃ g, f.Inside dirs g ∧ name ∉ g.names

variable {f g sub next : Forest} {x y : Node} {c name path rest : CStr} {dirs : List CStr} {L : Link} {P : Node → Prop}

theorem Inside.mem_names (h : f.Inside (c :: dirs) g) : c ∈ f.names := by
  obtain ⟨x, sub, hx, rfl, -⟩ := h
  exact List.mem_map.2 ⟨_, hx, rfl⟩

theorem Blocked.mem_names (h : f.Blocked (c :: dirs)) : c ∈ f.names := by
  obtain ⟨x, sub, hx, rfl, -⟩ := h
  exact List.mem_map.2 ⟨_, hx, rfl⟩

theorem not_inside_nil : ¬ nil.Inside (c :: dirs) g := fun ⟨_, _, h, _⟩ => nomatch h

theorem not_blocked_nil : ¬ nil.Blocked dirs := by
  cases dirs with
  | nil => exact id
  | cons c dirs =>
    rintro ⟨x, sub, hx, -⟩
    cases hx

theorem inside_here (hx : x.name ∉ next.names) :
    (cons x sub next).Inside (x.name :: dirs) g ↔ x.IsDir ∧ sub.Inside dirs g := by
  constructor
  · rintro ⟨y, sub', hy, hname, hdir, hin⟩
    rcases List.mem_cons.1 hy with heq | hy
    · cases heq
      exact ⟨hdir, hin⟩
    · exact absurd (List.mem_map.2 ⟨_, hy, hname⟩) hx
  · rintro ⟨hdir, hin⟩
    exact ⟨x, sub, List.mem_cons_self, rfl, hdir, hin⟩

theorem inside_there (hx : x.name ≠ c) : (cons x sub next).Inside (c :: dirs) g ↔ next.Inside (c :: dirs) g := by
  constructor
  · rintro ⟨y, sub', hy, hname, hdir, hin⟩
    rcases List.mem_cons.1 hy with heq | hy
    · cases heq
      exact absurd hname hx
    · exact ⟨y, sub', hy, hname, hdir, hin⟩
  · rintro ⟨y, sub', hy, hname, hdir, hin⟩
    exact ⟨y, sub', List.mem_cons_of_mem _ hy, hname, hdir, hin⟩

theorem blocked_here (hx : x.name ∉ next.names) :
    (cons x sub next).Blocked (x.name :: dirs) ↔ (x.IsDir → sub.Blocked dirs) := by
  constructor
  · rintro ⟨y, sub', hy, hname, hb⟩
    rcases List.mem_cons.1 hy with heq | hy
    · cases heq
      exact hb
    · exact absurd (List.mem_map.2 ⟨_, hy, hname⟩) hx
  · exact fun hb => ⟨x, sub, List.mem_cons_self, rfl, hb⟩

theorem blocked_there (hx : x.name ≠ c) : (cons x sub next).Blocked (c :: dirs) ↔ next.Blocked (c :: dirs) := by
  constructor
  · rintro ⟨y, sub', hy, hname, hb⟩
    rcases List.mem_cons.1 hy with heq | hy
    · cases heq
      exact absurd hname hx
    · exact ⟨y, sub', hy, hname, hb⟩
  · rintro ⟨y, sub', hy, hname, hb⟩
    exact ⟨y, sub', List.mem_cons_of_mem _ hy, hname, hb⟩

/-- Every name in the directory has what every node has. -/
theorem All.names {Q : CStr → Prop} (h : f.All fun x => Q x.name) : ∀ c ∈ f.names, Q c := by
  induction f with
  | nil => nofun
  | cons x sub next _ ih =>
    rintro c (- | ⟨-, hc⟩)
    · exact h.1
    · exact ih h.2.2 c hc

end Forest

/-! ### The walk to the end of the directory -/

namespace VfsState
variable {s s' : VfsState} {k : CreateAnswers} {f g sub next : Forest} {x y : Node} {c name path rest : CStr} {dirs : List CStr}
  {L : Link} {p : Option Addr} {a : Addr} {e : FileEntry} {n : Nat}

/-- An entry that the path does not go on from is passed over. -/
theorem createLoop_skip (he : s.entries.lookup a = some e) (hz : ¬ StartsWithZero path)
    (h : ¬ ∃ rest, path = e.name ++ slash :: rest) :
    s.createLoop k (n + 1) path (some a) L = s.createLoop k n path e.next (.next a) := by
  rw [createLoop, if_neg hz]
  simp only [entry, he, ok_bind]
  by_cases hpre : e.name <+: path
  · rw [if_pos hpre]
    have hpath := List.prefix_iff_eq_append.1 hpre
    cases hdrop : path.drop e.name.length with
    | nil => rfl
    | cons c rest =>
      refine if_neg ?_
      rintro rfl
      exact h ⟨rest, by rw [← hdrop, hpath]⟩
  · rw [if_neg hpre]

/-- From a directory that the path goes on from, the walk goes on in it. -/
theorem createLoop_into (he : s.entries.lookup a = some e) (hname : e.name = x.name) (hestat : e.stat = x.stat)
    (hstat : x.stat.isSome) (hdir : x.IsDir) (hz : ¬ StartsWithZero (x.name ++ slash :: rest)) :
    s.createLoop k (n + 1) (x.name ++ slash :: rest) (some a) L = s.createLoop k n rest e.nextDir (.nextDir a) := by
  rw [createLoop, if_neg hz]
  simp only [entry, he, ok_bind, hname]
  rw [if_pos (List.prefix_append _ _), List.drop_left]
  dsimp only
  rw [if_pos rfl, Forest.hasBit_eq hestat hstat, ok_bind]
  exact if_pos (decide_eq_true hdir)

end VfsState

/-- What the calls keep of a tree: no name starts with `'0'`. -/
structure Forest.Grown (f : Forest) : Prop extends f.IsTree where
  zero : f.All fun x => ¬ StartsWithZero x.name

namespace Forest
variable {f g sub next : Forest} {x y : Node} {c name path rest : CStr} {dirs : List CStr}

theorem Grown.inner (h : (cons x sub next).Grown) : sub.Grown := by
  obtain ⟨⟨hn, hu, hnd, hs⟩, hz⟩ := h
  rw [addrs, List.nodup_cons, List.nodup_append] at hnd
  exact ⟨⟨hn.2.1, hu.2.1, hnd.2.1, hs.2.1⟩, hz.2.1⟩

theorem Grown.after (h : (cons x sub next).Grown) : next.Grown := by
  obtain ⟨⟨hn, hu, hnd, hs⟩, hz⟩ := h
  rw [addrs, List.nodup_cons, List.nodup_append] at hnd
  exact ⟨⟨hn.2.2, hu.2.2, hnd.2.2.1, hs.2.2⟩, hz.2.2⟩

theorem relPath_snoc_cons : relPath (c :: dirs ++ [name]) = c ++ slash :: relPath (dirs ++ [name]) :=
  relPath_cons (by simp)

/-- The path goes on from no entry of another name than its first. -/
theorem not_goes_on (hx : IsName x.name) (hc : IsName c) (hne : x.name ≠ c) :
    ¬ ∃ rest', c ++ slash :: rest = x.name ++ slash :: rest' := by
  rintro ⟨rest', h⟩
  have hfirst : first (c ++ slash :: rest) = c := first_append hc.no_slash
  rw [h, first_append hx.no_slash] at hfirst
  exact hne hfirst

theorem not_startsWithZero_append (hc : IsName c) (hz : ¬ StartsWithZero c) : ¬ StartsWithZero (c ++ rest) := by
  obtain ⟨z, c, rfl⟩ := List.exists_cons_of_ne_nil hc.ne_nil
  exact hz

end Forest

namespace VfsState
variable {s s' : VfsState} {k : CreateAnswers} {f g sub next : Forest} {x y : Node} {c name path rest : CStr} {dirs : List CStr}
  {L : Link} {p : Option Addr} {a : Addr} {e : FileEntry} {n : Nat}

/-- The walk comes to the end of the directory that the names lead to. -/
theorem createLoop_inside (h : s.Holds p f) (hf : f.Grown) (hin : f.Inside dirs g) (hn : f.addrs.length ≤ n)
    (hname : IsName name) : s.createLoop k n (relPath (dirs ++ [name])) p L =
      if StartsWithZero name then .ok (-1, none, s) else s.createHere k (f.endLink L dirs) name := by
  induction f generalizing p dirs L n g with
  | nil =>
    obtain rfl : p = none := h
    cases dirs with
    | nil => rw [createLoop, List.nil_append, relPath, Forest.endLink]
    | cons d dirs => exact absurd hin Forest.not_inside_nil
  | cons x sub next ihs ihn =>
    obtain ⟨e, n, rfl, rfl, he, hename, hestat, ⟨hsub, hns⟩, hnext, hnn⟩ := Forest.holds_cons h hn
    cases dirs with
    | nil =>
      by_cases hz : StartsWithZero name
      · rw [List.nil_append, relPath, createLoop, if_pos hz, if_pos hz]
      have hskip : ¬ ∃ rest, name = e.name ++ slash :: rest := by
        rintro ⟨rest, rfl⟩
        exact hname.no_slash (by simp)
      rw [List.nil_append, relPath, createLoop_skip he hz hskip, Forest.endLink]
      have hnil : next.Inside [] next := rfl
      exact ihn hnext hf.after hnil hnn
    | cons d dirs =>
      have hmem := hin.mem_names
      have hd : IsName d := Forest.All.names hf.names d hmem
      have hdz : ¬ StartsWithZero d := Forest.All.names (Q := fun c => ¬ StartsWithZero c) hf.zero d hmem
      rw [Forest.relPath_snoc_cons]
      have hpz : ¬ StartsWithZero (d ++ slash :: relPath (dirs ++ [name])) := Forest.not_startsWithZero_append hd hdz
      rw [Forest.endLink]
      by_cases heq : x.name = d
      · subst heq
        obtain ⟨hdir, hin'⟩ := (Forest.inside_here hf.unique.1).1 hin
        rw [if_pos rfl, createLoop_into he hename hestat hf.stats.1 hdir hpz]
        exact ihs hsub hf.inner hin' hns
      · rw [if_neg heq, createLoop_skip he hpz (hename ▸ Forest.not_goes_on hf.names.1 hd heq), ← Forest.relPath_snoc_cons]
        exact ihn hnext hf.after ((Forest.inside_there heq).1 hin) hnn

/-- Where a directory is missing, nothing is done. -/
theorem createLoop_missing (h : s.Holds p f) (hf : f.Grown) (hin : ¬ ∃ g, f.Inside dirs g) (hb : ¬ f.Blocked dirs)
    (hn : f.addrs.length ≤ n) (hdirs : ∀ c ∈ dirs, IsName c) :
    s.createLoop k n (relPath (dirs ++ [name])) p L = .ok (-1, none, s) := by
  induction f generalizing p dirs L n with
  | nil =>
    obtain rfl : p = none := h
    cases dirs with
    | nil => exact absurd ⟨.nil, rfl⟩ hin
    | cons d dirs =>
      rw [Forest.relPath_snoc_cons, createLoop]
      split
      · rfl
      · have hslash : pathCheck (d ++ slash :: relPath (dirs ++ [name])) slash = -1 := if_pos (by simp)
        rw [createHere, hslash]
        rfl
  | cons x sub next ihs ihn =>
    obtain ⟨e, n, rfl, rfl, he, hename, hestat, ⟨hsub, hns⟩, hnext, hnn⟩ := Forest.holds_cons h hn
    cases dirs with
    | nil => exact absurd ⟨_, rfl⟩ hin
    | cons d dirs =>
      have hd : IsName d := hdirs d List.mem_cons_self
      rw [Forest.relPath_snoc_cons]
      by_cases hpz : StartsWithZero (d ++ slash :: relPath (dirs ++ [name]))
      · rw [createLoop, if_pos hpz]
      by_cases heq : x.name = d
      · subst heq
        have hdir : x.IsDir := by
          by_contra hdir
          exact hb ((Forest.blocked_here hf.unique.1).2 fun h => absurd h hdir)
        rw [createLoop_into he hename hestat hf.stats.1 hdir hpz]
        have hin' : ¬ ∃ g, sub.Inside dirs g := by
          rintro ⟨g, hg⟩
          exact hin ⟨g, (Forest.inside_here hf.unique.1).2 ⟨hdir, hg⟩⟩
        exact ihs hsub hf.inner hin' (fun h => hb ((Forest.blocked_here hf.unique.1).2 fun _ => h)) hns
          fun c hc => hdirs c (List.mem_cons_of_mem _ hc)
      · rw [createLoop_skip he hpz (hename ▸ Forest.not_goes_on hf.names.1 hd heq), ← Forest.relPath_snoc_cons]
        have hin' : ¬ ∃ g, next.Inside (d :: dirs) g := by
          rintro ⟨g, hg⟩
          exact hin ⟨g, (Forest.inside_there heq).2 hg⟩
        exact ihn hnext hf.after hin' (fun h => hb ((Forest.blocked_there heq).2 h)) hnn hdirs

/-- A new entry is returned, if nothing fails. -/
theorem newEntry_ok {res : Int32} {entry pNext : Option Addr} (h : s.newEntry k a L pNext path = .ok (res, entry, s')) :
    res = 0 ∧ k.name := by
  unfold newEntry at h
  obtain ⟨t, -, h⟩ := bind_eq_ok.1 h
  cases hk : k.name with
  | false =>
    rw [hk] at h
    cases h
  | true =>
    rw [hk] at h
    obtain ⟨u, -, h⟩ := bind_eq_ok.1 h
    cases h
    exact ⟨rfl, rfl⟩

/-- Behind an entry that is no directory the walk does not fail as it should. -/
theorem createLoop_blocked (h : s.Holds p f) (hf : f.Grown) (hb : f.Blocked dirs) (hn : f.addrs.length ≤ n)
    {entry : Option Addr} : s.createLoop k n (relPath (dirs ++ [name])) p L ≠ .ok (-1, entry, s') := by
  induction f generalizing p dirs L n with
  | nil => exact absurd hb Forest.not_blocked_nil
  | cons x sub next ihs ihn =>
    obtain ⟨e, n, rfl, rfl, he, hename, hestat, ⟨hsub, hns⟩, hnext, hnn⟩ := Forest.holds_cons h hn
    cases dirs with
    | nil => exact absurd hb id
    | cons d dirs =>
      have hmem := hb.mem_names
      have hd : IsName d := Forest.All.names hf.names d hmem
      have hpz : ¬ StartsWithZero (d ++ slash :: relPath (dirs ++ [name])) :=
        Forest.not_startsWithZero_append hd (Forest.All.names (Q := fun c => ¬ StartsWithZero c) hf.zero d hmem)
      rw [Forest.relPath_snoc_cons]
      by_cases heq : x.name = d
      · subst heq
        have hb' := (Forest.blocked_here hf.unique.1).1 hb
        by_cases hdir : x.IsDir
        · rw [createLoop_into he hename hestat hf.stats.1 hdir hpz]
          exact ihs hsub hf.inner (hb' hdir) hns
        · rw [createLoop, if_neg hpz]
          simp only [VfsState.entry, he, ok_bind, hename]
          rw [if_pos (List.prefix_append _ _), List.drop_left]
          dsimp only
          rw [if_pos rfl, Forest.hasBit_eq hestat hf.stats.1, ok_bind, if_neg (by simpa [Node.IsDir] using hdir)]
          split
          · intro h
            cases h
          · intro h
            cases (newEntry_ok h).1
      · rw [createLoop_skip he hpz (hename ▸ Forest.not_goes_on hf.names.1 hd heq), ← Forest.relPath_snoc_cons]
        exact ihn hnext hf.after ((Forest.blocked_there heq).1 hb) hnn

end VfsState

end VitaUtility.VfsMountOld
