import VitaUtility.VfsMountOld.Create

/-!
# Adding to the tree

With a new entry at the end of a directory, and the link there set to it, the links spell out the tree with the entry,
and that is a tree if the directory had none of the name.
-/

namespace VitaUtility.VfsMountOld
open Dmass (Addr)

/-! ### What a new entry changes -/

/-- The entry that the link is in. -/
def Link.holder : Link → Option Addr
  | root _ => none
  | next a => some a
  | nextDir a => some a

/-- The entry at `b` after the link is set to `a`. -/
def Link.setIn (L : Link) (a b : Addr) (e : FileEntry) : FileEntry :=
  match L with
  | root _ => e
  | next c => if b = c then { e with next := some a } else e
  | nextDir c => if b = c then { e with nextDir := some a } else e

def Link.setInPack (L : Link) (a r : Addr) (d : DataPack) : DataPack :=
  match L with
  | root c => if r = c then { d with dirEntryRoot := some a } else d
  | _ => d

/-- The state `s'` has the entry `e` at `a` and the link to it, and is as `s` otherwise. -/
structure VfsState.Adds (s s' : VfsState) (L : Link) (a : Addr) (e : FileEntry) : Prop where
  new : s'.entries.lookup a = some e
  old : ∀ b, b ≠ a → s'.entries.lookup b = (s.entries.lookup b).map (L.setIn a b)
  pack : ∀ r, s'.packs.lookup r = (s.packs.lookup r).map (L.setInPack a r)
  lastObj : s'.lastObj = s.lastObj
  rootNode : s'.rootNode = s.rootNode

namespace Forest
variable {f g sub next : Forest} {x y : Node} {dirs : List CStr} {L : Link} {s s' : VfsState} {p : Option Addr} {a b : Addr}
  {e : FileEntry} {c : CStr} {P : Node → Prop}

theorem map_self {α : Type} {q : α → α} {o : Option α} (h : ∀ z, q z = z) : o.map q = o := by
  cases o with
  | none => rfl
  | some z => exact congrArg some (h z)

theorem setIn_of_ne (h : L.holder ≠ some b) : L.setIn a b e = e := by
  cases L with
  | root r => rfl
  | next c => exact if_neg fun hb => h (congrArg some hb.symm)
  | nextDir c => exact if_neg fun hb => h (congrArg some hb.symm)

@[simp] theorem setIn_name : (L.setIn a b e).name = e.name := by
  cases L <;> simp only [Link.setIn] <;> split <;> rfl

@[simp] theorem setIn_stat : (L.setIn a b e).stat = e.stat := by
  cases L <;> simp only [Link.setIn] <;> split <;> rfl

/-- The last link of a directory is in one of the entries below, if there are any. -/
theorem endLink_holder : (f = nil ∧ f.endLink L dirs = L) ∨ ∃ b ∈ f.addrs, (f.endLink L dirs).holder = some b := by
  induction f generalizing L dirs with
  | nil => exact .inl ⟨rfl, by cases dirs <;> rfl⟩
  | cons y sub next ihs ihn =>
    right
    have hsub : ∀ ds, ∃ b ∈ (cons y sub next).addrs, (sub.endLink (.nextDir y.addr) ds).holder = some b := by
      intro ds
      rcases @ihs ds (.nextDir y.addr) with ⟨-, h⟩ | ⟨b, hb, h⟩
      · exact ⟨y.addr, by simp [addrs], by rw [h]; rfl⟩
      · exact ⟨b, by simp [addrs, hb], h⟩
    have hnext : ∀ ds, ∃ b ∈ (cons y sub next).addrs, (next.endLink (.next y.addr) ds).holder = some b := by
      intro ds
      rcases @ihn ds (.next y.addr) with ⟨-, h⟩ | ⟨b, hb, h⟩
      · exact ⟨y.addr, by simp [addrs], by rw [h]; rfl⟩
      · exact ⟨b, by simp [addrs, hb], h⟩
    cases dirs with
    | nil => exact hnext []
    | cons c dirs =>
      rw [endLink]
      split
      · exact hsub dirs
      · exact hnext (c :: dirs)

theorem holds_congr (h : s.Holds p f) (heq : ∀ b ∈ f.addrs, s'.entries.lookup b = s.entries.lookup b) : s'.Holds p f := by
  induction f generalizing p with
  | nil => exact h
  | cons x sub next ihs ihn =>
    obtain ⟨rfl, e, he, hname, hstat, hsub, hnext⟩ := h
    refine ⟨rfl, e, (heq _ (by simp [addrs])).trans he, hname, hstat, ihs hsub fun b hb => ?_, ihn hnext fun b hb => ?_⟩
    · exact heq b (by simp [addrs, hb])
    · exact heq b (by simp [addrs, hb])

/-- Where the link is in no entry of a tree, that stays as it is. -/
theorem holds_of_adds (ha : s.Adds s' L a e) (h : s.Holds p f) (hfresh : a ∉ f.addrs)
    (hL : ∀ b ∈ f.addrs, L.holder ≠ some b) : s'.Holds p f := by
  refine holds_congr h fun b hb => ?_
  rw [ha.old b fun hba => hfresh (hba ▸ hb)]
  exact map_self fun _ => setIn_of_ne (hL b hb)

/-! ### The tree with a new entry -/

theorem firstAddr_addIn (h : f ≠ nil) : (f.addIn dirs x).firstAddr = f.firstAddr := by
  cases f with
  | nil => exact absurd rfl h
  | cons y sub next =>
    cases dirs with
    | nil => rfl
    | cons c dirs =>
      rw [addIn]
      split <;> rfl

theorem addIn_nil (h : nil.Inside dirs g) : nil.addIn dirs x = cons x nil nil := by
  cases dirs with
  | nil => rfl
  | cons c dirs => exact absurd h not_inside_nil

/-- The last link is `L` itself, which then leads to the new entry, or in another entry than that of `L`. -/
theorem endLink_addIn (hin : f.Inside dirs g) (hb : b ∉ f.addrs) :
    (f.endLink L dirs = L ∧ (f.addIn dirs x).firstAddr = some x.addr) ∨
      ((f.endLink L dirs).holder ≠ some b ∧ (f.addIn dirs x).firstAddr = f.firstAddr) := by
  rcases @endLink_holder f dirs L with ⟨rfl, h⟩ | ⟨c, hc, h⟩
  · exact .inl ⟨h, by rw [addIn_nil hin, firstAddr]⟩
  · refine .inr ⟨?_, firstAddr_addIn ?_⟩
    · rw [h]
      rintro ⟨rfl⟩
      exact hb hc
    · rintro rfl
      cases hc

/-- `next` of an entry leads to what follows it after the addition there. -/
theorem setIn_next (hin : f.Inside dirs g) (hb : b ∉ f.addrs) (he : e.next = f.firstAddr) :
    ((f.endLink (.next b) dirs).setIn x.addr b e).next = (f.addIn dirs x).firstAddr ∧
      ((f.endLink (.next b) dirs).setIn x.addr b e).nextDir = e.nextDir := by
  rcases @endLink_addIn _ _ x dirs (.next b) _ hin hb with ⟨h, hfirst⟩ | ⟨hne, hfirst⟩
  · rw [h, hfirst, Link.setIn, if_pos rfl]
    exact ⟨rfl, rfl⟩
  · rw [setIn_of_ne hne, hfirst]
    exact ⟨he, rfl⟩

/-- `nextDir` of an entry leads to what is in it after the addition there. -/
theorem setIn_nextDir (hin : f.Inside dirs g) (hb : b ∉ f.addrs) (he : e.nextDir = f.firstAddr) :
    ((f.endLink (.nextDir b) dirs).setIn x.addr b e).nextDir = (f.addIn dirs x).firstAddr ∧
      ((f.endLink (.nextDir b) dirs).setIn x.addr b e).next = e.next := by
  rcases @endLink_addIn _ _ x dirs (.nextDir b) _ hin hb with ⟨h, hfirst⟩ | ⟨hne, hfirst⟩
  · rw [h, hfirst, Link.setIn, if_pos rfl]
    exact ⟨rfl, rfl⟩
  · rw [setIn_of_ne hne, hfirst]
    exact ⟨he, rfl⟩

/-- The last link is in none of the entries of another tree. -/
theorem endLink_holder_ne (h : ∀ b ∈ g.addrs, L.holder ≠ some b) (hdis : ∀ b ∈ f.addrs, b ∉ g.addrs) :
    ∀ b ∈ g.addrs, (f.endLink L dirs).holder ≠ some b := by
  intro b hb
  rcases @endLink_holder f dirs L with ⟨-, heq⟩ | ⟨c, hc, heq⟩
  · rw [heq]
    exact h b hb
  · rw [heq]
    rintro ⟨rfl⟩
    exact hdis _ hc hb

/-- With the new entry at the end of the directory the links spell out the tree with it. -/
theorem holds_addIn (hadds : s.Adds s' (f.endLink L dirs) x.addr e) (hname : e.name = x.name) (hstat : e.stat = x.stat)
    (hnext : e.next = none) (hnextDir : e.nextDir = none) (h : s.Holds p f) (hin : f.Inside dirs g) (hu : dirs ≠ [] → f.Unique)
    (hnd : f.addrs.Nodup) (hfresh : x.addr ∉ f.addrs) : s'.Holds (f.addIn dirs x).firstAddr (f.addIn dirs x) := by
  induction f generalizing p dirs L g with
  | nil =>
    rw [addIn_nil hin]
    exact ⟨rfl, e, hadds.new, hname, hstat, hnextDir, hnext⟩
  | cons y sub next ihs ihn =>
    obtain ⟨rfl, e', he', hname', hstat', hsub, hnext'⟩ := h
    rw [addrs, List.nodup_cons, List.nodup_append, List.mem_append, not_or] at hnd
    obtain ⟨⟨hys, hyn⟩, hnds, hndn, hdis⟩ := hnd
    rw [addrs, List.mem_cons, List.mem_append, not_or, not_or] at hfresh
    obtain ⟨hxy, hxs, hxn⟩ := hfresh
    have hself := hadds.old y.addr (Ne.symm hxy)
    rw [he', Option.map_some] at hself
    have hdis' : ∀ b ∈ sub.addrs, b ∉ next.addrs := fun b hb hb' => hdis b hb b hb' rfl
    -- the two ways on from `y`
    have hafter {g : Forest} (hin' : next.Inside dirs g) (hadds : s.Adds s' (next.endLink (.next y.addr) dirs) x.addr e)
        (hself : s'.entries.lookup y.addr = some ((next.endLink (.next y.addr) dirs).setIn x.addr y.addr e')) :
        s'.Holds (some y.addr) (cons y sub (next.addIn dirs x)) := by
      obtain ⟨hn, hd⟩ := @setIn_next _ _ x dirs _ e' hin' hyn (firstAddr_eq hnext')
      refine ⟨rfl, _, hself, setIn_name.trans hname', setIn_stat.trans hstat', ?_, ?_⟩
      · rw [hd]
        refine holds_of_adds hadds hsub hxs (endLink_holder_ne (fun b hb => ?_) fun b hb hb' => hdis' b hb' hb)
        rintro ⟨rfl⟩
        exact hys hb
      · rw [hn]
        exact ihn hadds hnext' hin' (fun hne => (hu hne).2.2) hndn hxn
    have hinner (dirs : List CStr) (hus : sub.Unique) (hin' : sub.Inside dirs g)
        (hadds : s.Adds s' (sub.endLink (.nextDir y.addr) dirs) x.addr e)
        (hself : s'.entries.lookup y.addr = some ((sub.endLink (.nextDir y.addr) dirs).setIn x.addr y.addr e')) :
        s'.Holds (some y.addr) (cons y (sub.addIn dirs x) next) := by
      obtain ⟨hd, hn⟩ := @setIn_nextDir _ _ x dirs _ e' hin' hys (firstAddr_eq hsub)
      refine ⟨rfl, _, hself, setIn_name.trans hname', setIn_stat.trans hstat', ?_, ?_⟩
      · rw [hd]
        exact ihs hadds hsub hin' (fun _ => hus) hnds hxs
      · rw [hn]
        refine holds_of_adds hadds hnext' hxn (endLink_holder_ne (fun b hb => ?_) hdis')
        rintro ⟨rfl⟩
        exact hyn hb
    cases dirs with
    | nil =>
      have hnil : next.Inside [] next := rfl
      exact hafter hnil hadds hself
    | cons c dirs =>
      rw [endLink] at hadds hself
      rw [addIn]
      by_cases hc : y.name = c
      · subst hc
        obtain ⟨hun, hus, -⟩ := hu (List.cons_ne_nil _ _)
        rw [if_pos rfl] at hadds hself ⊢
        exact hinner dirs hus ((inside_here hun).1 hin).2 hadds hself
      · rw [if_neg hc] at hadds hself ⊢
        exact hafter ((inside_there hc).1 hin) hadds hself

theorem All.addIn (h : f.All P) (hx : P x) : (f.addIn dirs x).All P := by
  induction f generalizing dirs with
  | nil =>
    cases dirs with
    | nil => exact ⟨hx, trivial, trivial⟩
    | cons c dirs => trivial
  | cons y sub next ihs ihn =>
    obtain ⟨hy, hsub, hnext⟩ := h
    cases dirs with
    | nil => exact ⟨hy, hsub, ihn hnext⟩
    | cons c dirs =>
      rw [Forest.addIn]
      split
      · exact ⟨hy, ihs hsub, hnext⟩
      · exact ⟨hy, hsub, ihn hnext⟩

theorem mem_names_addIn (h : c ∈ (f.addIn dirs x).names) : c ∈ f.names ∨ dirs = [] ∧ c = x.name := by
  induction f generalizing dirs with
  | nil =>
    cases dirs with
    | nil => exact .inr ⟨rfl, List.mem_singleton.1 h⟩
    | cons d dirs => exact .inl h
  | cons y sub next _ ihn =>
    have hnext (h : c ∈ y.name :: (next.addIn dirs x).names) : c ∈ (cons y sub next).names ∨ dirs = [] ∧ c = x.name := by
      rcases List.mem_cons.1 h with h | h
      · exact .inl (List.mem_cons.2 (.inl h))
      · exact (ihn h).imp_left fun h => List.mem_cons_of_mem _ h
    cases dirs with
    | nil => exact hnext h
    | cons d dirs =>
      rw [addIn] at h
      split at h
      · exact .inl h
      · exact hnext h

theorem Unique.addIn (hu : f.Unique) (hin : f.Inside dirs g) (hnew : x.name ∉ g.names) : (f.addIn dirs x).Unique := by
  induction f generalizing dirs g with
  | nil =>
    rw [addIn_nil hin]
    exact ⟨List.not_mem_nil, trivial, trivial⟩
  | cons y sub next ihs ihn =>
    obtain ⟨hy, hsub, hnext⟩ := hu
    cases dirs with
    | nil =>
      obtain rfl : g = cons y sub next := hin
      have hnil : next.Inside [] next := rfl
      refine ⟨fun h => ?_, hsub, ihn hnext hnil fun h => hnew (List.mem_cons_of_mem _ h)⟩
      rcases mem_names_addIn h with h | ⟨-, h⟩
      · exact hy h
      · exact hnew (List.mem_cons.2 (.inl h.symm))
    | cons c dirs =>
      rw [Forest.addIn]
      by_cases hc : y.name = c
      · subst hc
        rw [if_pos rfl]
        exact ⟨hy, ihs hsub ((inside_here hy).1 hin).2 hnew, hnext⟩
      · rw [if_neg hc]
        refine ⟨fun h => ?_, hsub, ihn hnext ((inside_there hc).1 hin) hnew⟩
        rcases mem_names_addIn h with h | ⟨h, -⟩
        · exact hy h
        · cases h

theorem mem_addrs_addIn (h : b ∈ (f.addIn dirs x).addrs) : b = x.addr ∨ b ∈ f.addrs := by
  induction f generalizing dirs with
  | nil =>
    cases dirs with
    | nil => exact .inl (List.mem_singleton.1 h)
    | cons c dirs => exact .inr h
  | cons y sub next ihs ihn =>
    cases dirs with
    | nil =>
      simp only [addIn, addrs, List.mem_cons, List.mem_append] at h ⊢
      have := @ihn []
      tauto
    | cons c dirs =>
      rw [addIn] at h
      split at h
      · simp only [addrs, List.mem_cons, List.mem_append] at h ⊢
        have := @ihs dirs
        tauto
      · simp only [addrs, List.mem_cons, List.mem_append] at h ⊢
        have := @ihn (c :: dirs)
        tauto

theorem nodup_addIn (h : f.addrs.Nodup) (hx : x.addr ∉ f.addrs) : (f.addIn dirs x).addrs.Nodup := by
  induction f generalizing dirs with
  | nil =>
    cases dirs with
    | nil => exact List.nodup_singleton _
    | cons c dirs => exact h
  | cons y sub next ihs ihn =>
    rw [addrs, List.nodup_cons, List.nodup_append', List.mem_append, not_or] at h
    obtain ⟨⟨hys, hyn⟩, hnds, hndn, hdis⟩ := h
    rw [addrs, List.mem_cons, List.mem_append, not_or, not_or] at hx
    obtain ⟨hxy, hxs, hxn⟩ := hx
    have hnext (dirs : List CStr) : (cons y sub (next.addIn dirs x)).addrs.Nodup := by
      rw [addrs, List.nodup_cons, List.nodup_append', List.mem_append, not_or]
      refine ⟨⟨hys, fun h => ?_⟩, hnds, ihn hndn hxn, fun b hb h => ?_⟩
      · rcases mem_addrs_addIn h with h | h
        · exact hxy h.symm
        · exact hyn h
      · rcases mem_addrs_addIn h with rfl | h
        · exact hxs hb
        · exact hdis hb h
    have hsub (dirs : List CStr) : (cons y (sub.addIn dirs x) next).addrs.Nodup := by
      rw [addrs, List.nodup_cons, List.nodup_append', List.mem_append, not_or]
      refine ⟨⟨fun h => ?_, hyn⟩, ihs hnds hxs, hndn, fun b h hb => ?_⟩
      · rcases mem_addrs_addIn h with h | h
        · exact hxy h.symm
        · exact hys h
      · rcases mem_addrs_addIn h with rfl | h
        · exact hxn hb
        · exact hdis h hb
    cases dirs with
    | nil => exact hnext []
    | cons c dirs =>
      rw [addIn]
      split
      · exact hsub dirs
      · exact hnext (c :: dirs)

/-- The tree with an entry of a new name at the end of a directory is one. -/
theorem Grown.addIn (h : f.Grown) (hin : f.Inside dirs g) (hnew : x.name ∉ g.names) (hname : IsName x.name)
    (hz : ¬ StartsWithZero x.name) (hstat : x.stat.isSome) (hfresh : x.addr ∉ f.addrs) : (f.addIn dirs x).Grown where
  names := h.names.addIn hname
  unique := h.unique.addIn hin hnew
  addrs := nodup_addIn h.addrs hfresh
  stats := h.stats.addIn hstat
  zero := h.zero.addIn hz

end Forest

end VitaUtility.VfsMountOld
