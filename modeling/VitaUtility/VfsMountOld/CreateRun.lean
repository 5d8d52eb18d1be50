import VitaUtility.Lib.Run
import VitaUtility.VfsMountOld.Grow

/-!
# The tree that the calls make

When a call of `createFileEntry` is right, and what any calls as they should be make of an empty root.
-/

namespace VitaUtility.VfsMountOld
open Dmass (Addr NodePtr SCE_S_IFREG lookup_insert_ite)

/-! ### What the calls do -/

/-- The link is in a live block. -/
def Link.Live (s : VfsState) : Link → Prop
  | root r => ∃ d, s.packs.lookup r = some d
  | next b => ∃ e, s.entries.lookup b = some e
  | nextDir b => ∃ e, s.entries.lookup b = some e

namespace VfsState
variable {s s' : VfsState} {k : CreateAnswers} {f g : Forest} {x : Node} {name path : CStr} {dirs : List CStr} {L : Link}
  {a r : Addr} {e : FileEntry} {d : DataPack} {node : Option NodePtr} {given : GivenStat} {call : CreateCall}

theorem ne_of_fresh {b : Addr} (hfresh : a ∉ s.entries.keys) (he : s.entries.lookup b = some e) : b ≠ a := by
  rintro rfl
  exact hfresh (Finmap.mem_keys.2 (Finmap.mem_iff.2 ⟨e, he⟩))

/-- The link to a new block where it is in the entry `b`. -/
theorem setLink_adds_entry {b : Addr} {q : FileEntry → FileEntry} (he : s.entries.lookup b = some e)
    (hset : ∀ t : VfsState, t.setLink L (some a) = t.modEntry b q)
    (hin : ∀ c x, L.setIn a c x = if c = b then q x else x) (hpack : ∀ r d, L.setInPack a r d = d)
    (hfresh : a ∉ s.entries.keys) :
    ∃ t, VfsState.setLink { s with entries := s.entries.insert a {} } L (some a) = .ok t ∧ s.Adds t L a {} := by
  have hne := ne_of_fresh hfresh he
  rw [hset]
  simp only [modEntry, lookup_insert_ite, if_neg hne, he]
  refine ⟨_, rfl, by simp [hne.symm], fun c hc => ?_, fun r => (Forest.map_self fun _ => hpack r _).symm, rfl, rfl⟩
  simp only [lookup_insert_ite, if_neg hc]
  by_cases hcb : c = b
  · rw [if_pos hcb, hcb, he, Option.map_some, hin, if_pos rfl]
  · rw [if_neg hcb]
    exact (Forest.map_self fun _ => (hin c _).trans (if_neg hcb)).symm

/-- A new block with the link to it. -/
theorem setLink_adds (hlive : L.Live s) (hfresh : a ∉ s.entries.keys) :
    ∃ t, VfsState.setLink { s with entries := s.entries.insert a {} } L (some a) = .ok t ∧ s.Adds t L a {} := by
  cases L with
  | root r =>
    obtain ⟨d, hd⟩ := hlive
    simp only [setLink, modPack, hd]
    refine ⟨_, rfl, by simp, fun b hb => ?_, fun r' => ?_, rfl, rfl⟩
    · simp only [lookup_insert_ite, if_neg hb]
      exact (Forest.map_self fun _ => rfl).symm
    · rw [lookup_insert_ite]
      by_cases hr : r' = r
      · rw [if_pos hr, hr, hd, Option.map_some, Link.setInPack, if_pos rfl]
      · rw [if_neg hr]
        exact (Forest.map_self fun _ => if_neg hr).symm
  | next b =>
    obtain ⟨e, he⟩ := hlive
    exact setLink_adds_entry he (fun _ => rfl) (fun _ _ => rfl) (fun _ _ => rfl) hfresh
  | nextDir b =>
    obtain ⟨e, he⟩ := hlive
    exact setLink_adds_entry he (fun _ => rfl) (fun _ _ => rfl) (fun _ _ => rfl) hfresh

/-- A write to the new entry. -/
theorem Adds.modEntry (h : s.Adds s' L a e) (g : FileEntry → FileEntry) :
    ∃ t, s'.modEntry a g = .ok t ∧ s.Adds t L a (g e) := by
  refine ⟨{ s' with entries := s'.entries.insert a (g e) }, by rw [VfsState.modEntry, h.new], ?_, fun b hb => ?_, h.pack,
    h.lastObj, h.rootNode⟩
  · rw [lookup_insert_ite, if_pos rfl]
  · rw [lookup_insert_ite, if_neg hb, h.old b hb]

theorem newEntry_adds (hlive : L.Live s) (hfresh : a ∉ s.entries.keys) (hname : k.name) :
    ∃ s', s.newEntry k a L none path = .ok (0, some a, s') ∧ s.Adds s' L a { name := path } := by
  obtain ⟨t, ht, hadds⟩ := setLink_adds hlive hfresh
  obtain ⟨u, hu, hadds⟩ := hadds.modEntry fun e => { e with next := none, name := path }
  refine ⟨u, ?_, hadds⟩
  rw [newEntry]
  simp only [ht, ok_bind, hname, hu]
  rfl

/-- The object of a node is found as before. -/
theorem Adds.getFileEntryByNode (h : s.Adds s' L a e) : s'.getFileEntryByNode node = s.getFileEntryByNode node := by
  refine getFileEntryByNode_congr (fun r => ?_) h.lastObj
  have hset : ∀ d, ((L.setInPack a r d).node, (L.setInPack a r d).next) = (d.node, d.next) := by
    intro d
    cases L with
    | root c =>
      rw [Link.setInPack]
      split <;> rfl
    | next c => rfl
    | nextDir c => rfl
  rw [h.pack, Option.map_map]
  exact Option.map_congr fun d _ => hset d

theorem endLink_live {p : Option Addr} (h : s.Holds p f) (hd : s.packs.lookup r = some d) :
    (f.endLink (.root r) dirs).Live s := by
  rcases @Forest.endLink_holder f dirs (.root r) with ⟨-, heq⟩ | ⟨b, hb, heq⟩
  · rw [heq]
    exact ⟨d, hd⟩
  · obtain ⟨e, he⟩ := Finmap.mem_iff.1 (Finmap.mem_keys.1 (Forest.mem_keys h b hb))
    generalize f.endLink (.root r) dirs = K at heq
    cases K with
    | root r => cases heq
    | next c => exact ⟨e, Option.some.inj heq ▸ he⟩
    | nextDir c => exact ⟨e, Option.some.inj heq ▸ he⟩

/-- The tree with the new entry hangs from the object of the root node. -/
theorem Adds.root (hadds : s.Adds s' (f.endLink (.root r) dirs) x.addr e) (hname : e.name = x.name) (hstat : e.stat = x.stat)
    (hnext : e.next = none) (hnextDir : e.nextDir = none) (h : s.Root f r d) (hf : f.IsTree) (hin : f.Inside dirs g)
    (hfresh : x.addr ∉ s.entries.keys) :
    s'.Root (f.addIn dirs x) r ((f.endLink (.root r) dirs).setInPack x.addr r d) := by
  have hnew : x.addr ∉ f.addrs := fun h' => hfresh (Forest.mem_keys h.holds _ h')
  refine ⟨?_, by rw [hadds.pack, h.pack, Option.map_some], ?_⟩
  · rw [hadds.getFileEntryByNode, hadds.rootNode, h.found]
  · have hfirst : ((f.endLink (.root r) dirs).setInPack x.addr r d).dirEntryRoot = (f.addIn dirs x).firstAddr := by
      rcases @Forest.endLink_holder f dirs (.root r) with ⟨rfl, heq⟩ | ⟨b, hb, heq⟩
      · rw [heq, Forest.addIn_nil hin, Link.setInPack, if_pos rfl, Forest.firstAddr]
      · have hne : f ≠ .nil := by
          rintro rfl
          cases hb
        rw [Forest.firstAddr_addIn hne, ← Forest.firstAddr_eq h.holds]
        generalize f.endLink (.root r) dirs = K at heq
        cases K with
        | root r => cases heq
        | next c => rfl
        | nextDir c => rfl
    rw [hfirst]
    exact Forest.holds_addIn hadds hname hstat hnext hnextDir h.holds hin (fun _ => hf.unique) hf.addrs hnew

theorem giveStat_adds (h : s.Adds s' L a e) : ∃ t e', s'.giveStat a given = .ok t ∧ s.Adds t L a e' ∧ e'.name = e.name ∧
    e'.stat = some given.stat ∧ e'.next = e.next ∧ e'.nextDir = e.nextDir := by
  cases given with
  | dir =>
    obtain ⟨t, ht, hadds⟩ := h.modEntry fun e =>
      { e with openAllowFlags := SCE_O_RDONLY ||| SCE_O_DIROPEN, stat := some statDirTpl }
    exact ⟨t, _, ht, hadds, rfl, rfl, rfl, rfl⟩
  | file stat =>
    obtain ⟨t, ht, hadds⟩ := h.modEntry fun e => { e with stat := some stat }
    exact ⟨t, _, ht, hadds, rfl, rfl, rfl, rfl⟩

end VfsState

/-! ### When a call is right -/

namespace Forest
variable {f g g' sub next : Forest} {x : Node} {c name : CStr} {dirs : List CStr} {s : VfsState} {p : Option Addr}

theorem Inside.grown (hin : f.Inside dirs g) (h : f.Grown) : g.Grown := by
  induction f generalizing dirs with
  | nil =>
    cases dirs with
    | nil => exact Eq.symm hin ▸ h
    | cons c dirs => exact absurd hin not_inside_nil
  | cons x sub next ihs ihn =>
    cases dirs with
    | nil => exact Eq.symm hin ▸ h
    | cons c dirs =>
      by_cases hc : x.name = c
      · subst hc
        exact ihs ((inside_here h.unique.1).1 hin).2 h.inner
      · exact ihn ((inside_there hc).1 hin) h.after

/-- The names lead to one directory only, and not to an entry that is none. -/
theorem Inside.only (hin : f.Inside dirs g) (hu : f.Unique) : (∀ g', f.Inside dirs g' → g' = g) ∧ ¬ f.Blocked dirs := by
  induction f generalizing dirs with
  | nil =>
    refine ⟨?_, not_blocked_nil⟩
    cases dirs with
    | nil => exact fun g' hin' => hin'.trans hin.symm
    | cons c dirs => exact absurd hin not_inside_nil
  | cons x sub next ihs ihn =>
    obtain ⟨hx, hsub, hnext⟩ := hu
    cases dirs with
    | nil => exact ⟨fun g' hin' => hin'.trans hin.symm, id⟩
    | cons c dirs =>
      by_cases hc : x.name = c
      · subst hc
        obtain ⟨hdir, hin⟩ := (inside_here hx).1 hin
        obtain ⟨hg, hb⟩ := ihs hin hsub
        exact ⟨fun g' hin' => hg g' ((inside_here hx).1 hin').2, fun h => hb ((blocked_here hx).1 h hdir)⟩
      · obtain ⟨hg, hb⟩ := ihn ((inside_there hc).1 hin) hnext
        exact ⟨fun g' hin' => hg g' ((inside_there hc).1 hin'), fun h => hb ((blocked_there hc).1 h)⟩

theorem creatable_iff (hin : f.Inside dirs g) (hu : f.Unique) : f.Creatable dirs name ↔ name ∉ g.names := by
  refine ⟨?_, fun h => ⟨g, hin, h⟩⟩
  rintro ⟨g', hin', hnew⟩
  rwa [(hin.only hu).1 g' hin'] at hnew

/-- The links spell out one tree only. -/
theorem holds_unique (h : s.Holds p f) (h' : s.Holds p g) : f = g := by
  induction f generalizing p g with
  | nil =>
    obtain rfl : p = none := h
    cases g with
    | nil => rfl
    | cons y sub next => cases h'.1
  | cons x sub next ihs ihn =>
    obtain ⟨rfl, e, he, hname, hstat, hsub, hnext⟩ := h
    cases g with
    | nil => cases h'
    | cons y sub' next' =>
      obtain ⟨haddr, e', he', hname', hstat', hsub', hnext'⟩ := h'
      have haddr' : x.addr = y.addr := Option.some.inj haddr
      obtain rfl : e = e' := Option.some.inj (he.symm.trans (haddr' ▸ he'))
      have hxy : x = y := by
        cases x
        cases y
        simp_all
      rw [hxy, ihs hsub hsub', ihn hnext hnext']

end Forest

namespace CreateCall

/-- The path has no empty component, and a block from the heap is no entry yet. -/
structure Valid (call : CreateCall) (s : VfsState) : Prop where
  dirs : ∀ c ∈ call.dirs, IsName c
  name : IsName call.name
  fresh : ∀ a, call.answers.entry = some a → a ∉ s.entries.keys

/-- The path does not go on from an entry that is no directory, an entry that there is is asked for only when the heap
has no block, and one that there is not with both blocks and a name that does not start with `'0'`. -/
structure Meets (call : CreateCall) (f : Forest) : Prop where
  dirs : ¬ f.Blocked call.dirs
  old : ∀ g, f.Inside call.dirs g → call.name ∈ g.names → call.answers.entry = none
  new : f.Creatable call.dirs call.name →
    ¬ StartsWithZero call.name ∧ call.answers.entry.isSome ∧ call.answers.name

end CreateCall

namespace VfsState
variable {s s₀ s' : VfsState} {f g : Forest} {r a : Addr} {d d₀ : DataPack} {call : CreateCall} {k : CreateAnswers}
  {path : CStr} {calls : List CreateCall} {res : Int32} {entry : Option Addr}

/-- A call adds an entry at the end of an existing directory that has none of the name, and returns it and 0;
otherwise it returns -1 and changes nothing. -/
def CreateRight (s : VfsState) (f : Forest) (r : Addr) (call : CreateCall) : Prop :=
  ∃ res entry s', s.createFileEntry call.answers call.path = .ok (res, entry, s') ∧
    ((f.Creatable call.dirs call.name ∧ res = 0 ∧ ∃ a, entry = some a ∧ a ∉ s.entries.keys ∧
        s.Adds s' (f.endLink (.root r) call.dirs) a { name := call.name } ∧
        ∃ d, s'.Root (f.addIn call.dirs ⟨a, call.name, none⟩) r d) ∨
      (¬ f.Creatable call.dirs call.name ∧ res = -1 ∧ entry = none ∧ s' = s))

theorem Root.unique {r' : Addr} {d' : DataPack} (h : s.Root f r d) (h' : s.Root g r' d') : f = g := by
  obtain rfl : r = r' := Option.some.inj (Except.ok.inj (h.found.symm.trans h'.found))
  obtain rfl : d = d' := Option.some.inj (h.pack.symm.trans h'.pack)
  exact Forest.holds_unique h.holds h'.holds

theorem createFileEntry_eq (h : s.Root f r d) :
    s.createFileEntry k path = s.createLoop k s.entries.keys.card path d.dirEntryRoot (.root r) := by
  rw [createFileEntry, h.found, ok_bind]
  dsimp only
  rw [pack, h.pack, ok_bind]

/-- What a call does where the directory exists. -/
theorem createFileEntry_inside (h : s.Root f r d) (hf : f.Grown) (hv : call.Valid s) (hin : f.Inside call.dirs g) :
    s.createFileEntry call.answers call.path = if StartsWithZero call.name then .ok (-1, none, s) else
      match call.answers.entry with
      | none => .ok (-1, none, s)
      | some a => s.newEntry call.answers a (f.endLink (.root r) call.dirs) none call.name := by
  have hslash : ¬ pathCheck call.name slash < 0 := by
    rw [pathCheck, if_neg hv.name.no_slash]
    decide
  have hhere : s.createHere call.answers (f.endLink (.root r) call.dirs) call.name =
      match call.answers.entry with
      | none => .ok (-1, none, s)
      | some a => s.newEntry call.answers a (f.endLink (.root r) call.dirs) none call.name := if_neg hslash
  rw [createFileEntry_eq h, CreateCall.path,
    createLoop_inside h.holds hf hin (Forest.length_le_keys h.holds hf.addrs) hv.name, hhere]

/-- Where the directory has no entry of the name, one is needed. -/
theorem createRight_new (h : s.Root f r d) (hf : f.Grown) (hv : call.Valid s) (hin : f.Inside call.dirs g)
    (hnew : f.Creatable call.dirs call.name) : s.CreateRight f r call ↔
      ¬ StartsWithZero call.name ∧ call.answers.entry.isSome ∧ call.answers.name := by
  have hrun := createFileEntry_inside h hf hv hin
  constructor
  · rintro ⟨res, entry, s', hres, ⟨-, rfl, -⟩ | ⟨hold, -⟩⟩
    · rw [hrun] at hres
      by_cases hz : StartsWithZero call.name
      · rw [if_pos hz] at hres
        cases hres
      · rw [if_neg hz] at hres
        cases hentry : call.answers.entry with
        | none =>
          rw [hentry] at hres
          cases hres
        | some a =>
          rw [hentry] at hres
          exact ⟨hz, rfl, (newEntry_ok hres).2⟩
    · exact absurd hnew hold
  · rintro ⟨hz, hentry, hname⟩
    obtain ⟨a, ha⟩ := Option.isSome_iff_exists.1 hentry
    have hfresh := hv.fresh a ha
    obtain ⟨s', hs', hadds⟩ := newEntry_adds (endLink_live h.holds h.pack) hfresh hname
    rw [if_neg hz, ha] at hrun
    exact ⟨0, some a, s', hrun.trans hs', .inl ⟨hnew, rfl, a, rfl, hfresh, hadds, _,
      Adds.root (x := ⟨a, call.name, none⟩) hadds rfl rfl rfl rfl h hf.toIsTree hin hfresh⟩⟩

/-- Where there is one, the call is not to get a block. -/
theorem createRight_old (h : s.Root f r d) (hf : f.Grown) (hv : call.Valid s) (hin : f.Inside call.dirs g)
    (hmem : call.name ∈ g.names) : s.CreateRight f r call ↔ call.answers.entry = none := by
  have hrun := createFileEntry_inside h hf hv hin
  have hold : ¬ f.Creatable call.dirs call.name := fun h => (Forest.creatable_iff hin hf.unique).1 h hmem
  have hz : ¬ StartsWithZero call.name :=
    Forest.All.names (Q := fun c => ¬ StartsWithZero c) (hin.grown hf).zero _ hmem
  rw [if_neg hz] at hrun
  constructor
  · rintro ⟨res, entry, s', hres, ⟨hnew, -⟩ | ⟨-, rfl, -⟩⟩
    · exact absurd hnew hold
    · rw [hrun] at hres
      split at hres
      · assumption
      · cases (newEntry_ok hres).1
  · intro hentry
    rw [hentry] at hrun
    exact ⟨-1, none, s, hrun, .inr ⟨hold, rfl, rfl, rfl⟩⟩

theorem createRight_iff (h : s.Root f r d) (hf : f.Grown) (hv : call.Valid s) :
    s.CreateRight f r call ↔ call.Meets f := by
  by_cases hin : ∃ g, f.Inside call.dirs g
  · obtain ⟨g, hin⟩ := hin
    obtain ⟨hg, hb⟩ := hin.only hf.unique
    by_cases hmem : call.name ∈ g.names
    · rw [createRight_old h hf hv hin hmem]
      refine ⟨fun hentry => ⟨hb, fun _ _ _ => hentry, fun hnew => ?_⟩, fun hm => hm.old g hin hmem⟩
      exact absurd hmem ((Forest.creatable_iff hin hf.unique).1 hnew)
    · have hnew := (Forest.creatable_iff hin hf.unique).2 hmem
      rw [createRight_new h hf hv hin hnew]
      refine ⟨fun hok => ⟨hb, fun g' hin' hmem' => ?_, fun _ => hok⟩, fun hm => hm.new hnew⟩
      exact absurd (hg g' hin' ▸ hmem') hmem
  · have hold : ¬ f.Creatable call.dirs call.name := fun ⟨g, hg, _⟩ => hin ⟨g, hg⟩
    have hlen := Forest.length_le_keys h.holds hf.addrs
    by_cases hb : f.Blocked call.dirs
    · refine iff_of_false ?_ fun hm => hm.dirs hb
      rintro ⟨res, entry, s', hres, ⟨hnew, -⟩ | ⟨-, rfl, -⟩⟩
      · exact hold hnew
      · rw [createFileEntry_eq h] at hres
        exact createLoop_blocked h.holds hf hb hlen hres
    · refine iff_of_true ⟨-1, none, s, ?_, .inr ⟨hold, rfl, rfl, rfl⟩⟩
        ⟨hb, fun g hg => absurd ⟨g, hg⟩ hin, fun hnew => absurd hnew hold⟩
      rw [createFileEntry_eq h]
      exact createLoop_missing h.holds hf hin hb hlen hv.dirs

/-! ### Runs -/

/-- A call as it should be, and the `stat` of the new entry. -/
def CreateStep (s : VfsState) (call : CreateCall) (s' : VfsState) : Prop :=
  call.Valid s ∧ (∀ f r d, s.Root f r d → call.Meets f) ∧ s.createStep call = .ok s'

/-- After a call that is right the tree is the one with the new entry, or as it was. -/
theorem createStep_grown (h : s.Root f r d) (hf : f.Grown) (hv : call.Valid s) (hm : call.Meets f)
    (hstep : s.createStep call = .ok s') : ∃ f' d', s'.Root f' r d' ∧ f'.Grown := by
  obtain ⟨res, entry, t, hres, ⟨hnew, rfl, a, rfl, hfresh, hadds, -⟩ | ⟨-, rfl, rfl, rfl⟩⟩ := (createRight_iff h hf hv).2 hm
  · rw [createStep, hres, ok_bind] at hstep
    obtain ⟨g, hin, hname⟩ := hnew
    obtain ⟨u, e, hu, hadds, hename, hestat, hnext, hnextDir⟩ := @giveStat_adds _ _ _ _ _ call.given hadds
    obtain rfl := Except.ok.inj (hu.symm.trans hstep)
    refine ⟨f.addIn call.dirs ⟨a, call.name, some call.given.stat⟩, _,
      Adds.root (x := ⟨a, call.name, some call.given.stat⟩) hadds hename hestat hnext hnextDir h hf.toIsTree hin hfresh,
      hf.addIn hin hname hv.name (hm.new ⟨g, hin, hname⟩).1 rfl fun h' => hfresh (Forest.mem_keys h.holds _ h')⟩
  · rw [createStep, hres, ok_bind] at hstep
    obtain rfl := Except.ok.inj hstep
    exact ⟨f, d, h, hf⟩

theorem grown_nil : Forest.nil.Grown := ⟨⟨trivial, trivial, List.nodup_nil, trivial⟩, trivial⟩

/-- After any calls as they should be there is a tree without two entries of one name in a directory and without `/` in a
name, and a further call is right exactly if it is as it should be. -/
theorem create_run (s₀ s : VfsState) (r : Addr) (d₀ : DataPack) (calls : List CreateCall) (h₀ : s₀.Root .nil r d₀)
    (h : Run CreateStep s₀ calls s) :
    ∃ f d, s.Root f r d ∧ f.IsTree ∧ ∀ call : CreateCall, call.Valid s → (s.CreateRight f r call ↔ call.Meets f) := by
  have hgrown : ∃ f d, s.Root f r d ∧ f.Grown := by
    refine h.invariant (I := fun s => ∃ f d, s.Root f r d ∧ f.Grown) ?_ ⟨_, _, h₀, grown_nil⟩
    rintro s call s' ⟨f, d, hroot, hf⟩ ⟨hv, hm, hstep⟩
    exact createStep_grown hroot hf hv (hm f r d hroot) hstep
  obtain ⟨f, d, hroot, hf⟩ := hgrown
  exact ⟨f, d, hroot, hf.toIsTree, fun call hv => createRight_iff hroot hf hv⟩

end VfsState

/-! ### Calls from an empty root -/

def emptyRoot : VfsState where
  packs := Finmap.singleton 1 { node := some 7 }
  lastObj := some 1
  entries := ∅
  rootNode := some 7

theorem emptyRoot_root : emptyRoot.Root .nil 1 { node := some 7 } := ⟨rfl, rfl, rfl⟩

def createE : CreateCall := ⟨[], nameE, ⟨some 0x30, true⟩, .dir⟩
def createEF : CreateCall := ⟨[nameE], nameF, ⟨some 0x10, true⟩, .file { stMode := SCE_S_IFREG }⟩

theorem create_run_inside : ∃ s f d, emptyRoot.createStep createE = .ok s ∧ s.Root f 1 d ∧ s.CreateRight f 1 createEF := by
  obtain ⟨s, hs, hroot, hfresh⟩ : ∃ s, emptyRoot.createStep createE = .ok s ∧
      s.Root (.cons ⟨0x30, nameE, some VfsState.statDirTpl⟩ .nil .nil) 1 { node := some 7, dirEntryRoot := some 0x30 } ∧
      0x10 ∉ s.entries.keys :=
    ⟨_, rfl, ⟨rfl, rfl, rfl, _, rfl, rfl, rfl, rfl, rfl⟩, by decide⟩
  have hv : createE.Valid emptyRoot := ⟨nofun, ⟨by decide, by decide⟩, fun _ _ => Finset.notMem_empty _⟩
  have hm : ∀ f r d, emptyRoot.Root f r d → createE.Meets f := by
    intro f r d h
    obtain rfl := h.unique emptyRoot_root
    refine ⟨id, ?_, fun _ => by decide⟩
    rintro g rfl hmem
    cases hmem
  obtain ⟨f, d, hroot', -, hright⟩ :=
    VfsState.create_run _ _ _ _ _ emptyRoot_root (.cons ⟨hv, hm, hs⟩ (.nil _))
  obtain rfl := hroot'.unique hroot
  have hv' : createEF.Valid s := by
    refine ⟨?_, ⟨by decide, by decide⟩, ?_⟩
    · rintro c (- | ⟨-, hc⟩)
      · exact ⟨by decide, by decide⟩
      · cases hc
    · rintro a ⟨rfl⟩
      exact hfresh
  refine ⟨s, _, d, hs, hroot', (hright createEF hv').2 ⟨?_, ?_, fun _ => by decide⟩⟩
  · rw [createEF, Forest.blocked_here (x := ⟨0x30, nameE, some VfsState.statDirTpl⟩) List.not_mem_nil]
    exact fun h => h (by decide)
  · intro g hg hmem
    obtain ⟨-, rfl⟩ := (Forest.inside_here (x := ⟨0x30, nameE, some VfsState.statDirTpl⟩) List.not_mem_nil).1 hg
    cases hmem

def createF : CreateCall := ⟨[], nameF, ⟨some 0x10, true⟩, .file { stMode := SCE_S_IFREG }⟩

/-- A second `f` is created after the first, `f/e` as an entry of that name, and no `0`. -/
theorem sameName_fail : ∃ s f d, emptyRoot.createStep createF = .ok s ∧ s.Root f 1 d ∧
    (∃ s', s.createFileEntry ⟨some 0x20, true⟩ nameF = .ok (0, some 0x20, s') ∧
      (s'.entries.lookup 0x10).map (fun e => (e.name, e.next)) = some (nameF, some 0x20) ∧
      (s'.entries.lookup 0x20).map (·.name) = some nameF) ∧
    (∃ s', s.createFileEntry ⟨some 0x20, true⟩ (nameF ++ slash :: nameE) = .ok (0, some 0x20, s') ∧
      (s'.entries.lookup 0x20).map (·.name) = some (nameF ++ slash :: nameE)) ∧
    s.createFileEntry ⟨some 0x20, true⟩ [zero] = .ok (-1, none, s) ∧
    ¬ s.CreateRight f 1 ⟨[], nameF, ⟨some 0x20, true⟩, createF.given⟩ := by
  refine ⟨_, .cons ⟨0x10, nameF, some { stMode := SCE_S_IFREG }⟩ .nil .nil, { node := some 7, dirEntryRoot := some 0x10 },
    rfl, ⟨rfl, rfl, rfl, _, rfl, rfl, rfl, rfl, rfl⟩, ⟨_, rfl, rfl, rfl⟩, ⟨_, rfl, rfl⟩, rfl, ?_⟩
  rintro ⟨res, entry, s', hres, ⟨⟨g, rfl, hnew⟩, -⟩ | ⟨-, rfl, -⟩⟩
  · exact hnew List.mem_cons_self
  · cases hres

end VitaUtility.VfsMountOld
