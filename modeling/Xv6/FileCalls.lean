-- The system calls on open files, current directories and processes. Each keeps
-- the counts of the tables, and makes one step of the tree at most.
import Xv6.Kernel

open bytes ownership wp count Function List

namespace xv6.fs

variable {sb : Superblock} {s t u : Fs} {ts : List Nat} {k ip p f fd : Nat}
  {E : Stop → Prop} {ft ft' : Nat → File} {pr : Nat → Proc} {r : Nat → Nat}

/-! ## Descriptors -/

lemma cwd_update (pr : Nat → Proc) (g : Nat → Option Nat) (q : Nat) :
    (update pr p { pr p with ofile := g } q).cwd = (pr q).cwd := by
  by_cases hq : q = p
  · subst hq
    simp
  · simp [hq]

lemma Tables.setFd (h : Tables ft pr) (hp : p < NPROC) (hfd : fd < NOFILE)
    (hcwd : (pr p).cwd ≠ none) {v : Option Nat} (hv : ∀ f, v = some f → f < NFILE)
    (href : ∀ g < NFILE, (ft' g).ref + (if (pr p).ofile fd = some g then 1 else 0) =
      (ft g).ref + (if v = some g then 1 else 0))
    (hclosed : ∀ g < NFILE, (ft' g).ref = 0 → (ft' g).type = .none)
    (hslots : ∀ k, 0 < holders ft' pr k → k < NINODE) :
    Tables ft' (update pr p
      { pr p with ofile := update (pr p).ofile fd v }) := by
  refine ⟨?_, hclosed, ?_, ?_, ?_⟩
  · intro g hg
    have h1 := href g hg
    have h2 := openCount_fd pr hp hfd v g
    have h3 := h.files g hg
    omega
  · intro q hq fd' hfd' g hg
    by_cases hqp : q = p
    · subst hqp
      rw [update_self] at hg
      by_cases hff : fd' = fd
      · subst hff
        exact hv g (by simpa using hg)
      · exact h.fds q hq fd' hfd' g (by simpa [hff] using hg)
    · rw [update_of_ne hqp] at hg
      exact h.fds q hq fd' hfd' g hg
  · intro q hq hc fd' hfd'
    rw [cwd_update] at hc
    have hqp : q ≠ p := by
      rintro rfl
      exact hcwd hc
    rw [update_of_ne hqp]
    exact h.idle q hq hc fd' hfd'
  · rw [holders_congr (fun _ => rfl) (cwd_update _ _)]
    exact hslots

lemma Kernel.retable (h : Kernel sb s) (htab : Tables ft pr)
    (hh : holders ft pr = holders s.ftable s.proc)
    (hfile : ∀ f, (ft f).type = .inode → (s.ftable f).type = .inode ∧
      (ft f).ip = (s.ftable f).ip ∧ (ft f).writable = (s.ftable f).writable) :
    Returned sb s { s with ftable := ft, proc := pr } := by
  refine ⟨⟨?_, htab⟩, fun hs hw => ⟨⟨.same _, ?_, hs.slots⟩, ?_⟩⟩
  · rw [hh]
    exact h.base.setTables ft pr
  · dsimp only
    rw [hh]
    exact hs.held
  · intro f hf ht hwr
    obtain ⟨h1, h2, h3⟩ := hfile f ht
    dsimp only at hwr ⊢
    rw [h3] at hwr
    rw [h2]
    exact hw f hf h1 hwr

lemma Kernel.refl (h : Kernel sb s) : Returned sb s s :=
  h.retable h.tables rfl fun _ ht => ⟨ht, rfl, rfl⟩

/-- The call made no pipe and closed none, and every process kept its directory. -/
structure SameEnds (s t : Fs) : Prop where
  ends : ∀ f < NFILE, (t.ftable f).pipeEnd = (s.ftable f).pipeEnd
  cwd : ∀ q, (t.proc q).cwd = (s.proc q).cwd

lemma SameTables.sameEnds (h : SameTables s t) : SameEnds s t :=
  ⟨fun _ _ => by rw [h.1], fun _ => by rw [h.2]⟩

lemma sameEnds_refl (s : Fs) : SameEnds s s := ⟨fun _ _ => rfl, fun _ => rfl⟩

lemma inode_update {x : File} (ht : x.type = (ft f).type) (hip : x.ip = (ft f).ip) (g : Nat) :
    (update ft f x g).inode = (ft g).inode := by
  by_cases hg : g = f
  · subst hg
    rw [update_self]
    unfold File.inode
    rw [ht, hip]
  · rw [update_of_ne hg]

lemma wp_argfd (hp : p < NPROC) (h : Tables s.ftable s.proc) :
    Wp (argfd p fd) (fun o t => t = s ∧ ∀ f, o = some f → fd < NOFILE ∧
      (s.proc p).ofile fd = some f ∧ f < NFILE) E s := by
  unfold argfd
  rw [wp_get_bind]
  apply wp_ite <;> intro hfd
  · rw [wp_pure]
    exact ⟨rfl, fun f hf => ⟨hfd, hf, h.fds p hp fd hfd f hf⟩⟩
  · rw [wp_pure]
    exact ⟨rfl, fun f hf => by cases hf⟩

/-- The state after descriptor `fd` of process `p` is set. -/
def setFd (p fd : Nat) (v : Option Nat) (s : Fs) : Fs :=
  let x : Proc := { s.proc p with ofile := update (s.proc p).ofile fd v }
  { s with proc := update s.proc p x }

def setFile (f : Nat) (x : File) (s : Fs) : Fs := { s with ftable := update s.ftable f x }

lemma wp_fdalloc (p f : Nat) :
    Wp (fdalloc p f) (fun o t => o = none ∧ t = s ∧ (∀ fd < NOFILE, (s.proc p).ofile fd ≠ none) ∨
      ∃ fd, o = some fd ∧ fd < NOFILE ∧ (s.proc p).ofile fd = none ∧ t = setFd p fd (some f) s) E s := by
  unfold fdalloc
  rw [wp_get_bind]
  split
  · rename_i fd hfind
    have hfd := mem_range.mp (mem_of_find?_eq_some hfind)
    have hno := find?_some hfind
    unfold modifyProc
    rw [wp_modify_bind, wp_pure]
    exact .inr ⟨fd, rfl, hfd, by simpa using hno, rfl⟩
  · rename_i hnone
    rw [find?_eq_none] at hnone
    rw [wp_pure]
    refine .inl ⟨rfl, rfl, fun fd hfd => ?_⟩
    simpa using hnone fd (mem_range.mpr hfd)

lemma wp_sys_dup (h : Kernel sb s) (hp : p < NPROC) (hcwd : (s.proc p).cwd ≠ none) (fd : Nat) :
    Wp (sys_dup p fd) (fun _ t => Returned sb s t ∧ SameEnds s t) E s := by
  refine (wp_argfd hp h.tables).bind ?_
  rintro o s1 ⟨rfl, hf⟩
  rcases o with _ | f
  · rw [wp_pure]
    exact ⟨h.refl, sameEnds_refl _⟩
  obtain ⟨hfd, hof, hlt⟩ := hf f rfl
  have hpos := h.tables.ref_pos hp hfd hof
  refine (wp_fdalloc p f).bind ?_
  rintro o s2 (⟨rfl, rfl, _⟩ | ⟨fd', rfl, hfd', hno, rfl⟩)
  · rw [wp_pure]
    exact ⟨h.refl, sameEnds_refl _⟩
  unfold filedup
  rw [wp_bind, wp_get_bind]
  apply wp_ite <;> intro hbad
  · have : (setFd p fd' (some f) s1).ftable = s1.ftable := rfl
    rw [this] at hbad
    omega
  rw [modifyFile, wp_modify, wp_pure]
  have hh : holders (update s1.ftable f
      { s1.ftable f with ref := (s1.ftable f).ref + 1 }) s1.proc = holders s1.ftable s1.proc :=
    holders_congr (inode_update rfl rfl) fun _ => rfl
  refine ⟨h.retable (h.tables.setFd hp hfd' hcwd ?_ ?_ ?_ ?_) ?_ ?_, ?_, cwd_update _ _⟩
  · rintro g hg
    cases hg
    exact hlt
  · intro g hg
    rw [hno]
    by_cases hgf : g = f
    · subst hgf
      simp [setFd]
    · simp [setFd, hgf, Ne.symm hgf]
  · intro g hg h0
    by_cases hgf : g = f
    · subst hgf
      simp [setFd] at h0
    · rw [update_of_ne hgf] at h0 ⊢
      exact h.tables.closed g hg h0
  · exact fun k hk => h.tables.slots k (by rw [← hh]; exact hk)
  · exact holders_congr (inode_update rfl rfl) (cwd_update _ _)
  · intro g
    by_cases hgf : g = f
    · subst hgf
      simp [setFd]
    · simp [setFd, hgf]
  · intro g _
    by_cases hgf : g = f
    · subst hgf
      simp [setFd, File.pipeEnd]
    · simp [setFd, hgf]

/-! ## The last reference to an inode -/

lemma count_one (k j : Nat) : [k].count j = if j = k then 1 else 0 := by
  by_cases h : j = k
  · simp [h]
  · simp [h, Ne.symm h]

lemma ite_some (k j : Nat) : (if some k = some j then 1 else 0) = if j = k then 1 else 0 := by
  by_cases h : j = k
  · simp [h]
  · simp [h, Ne.symm h]

lemma wp_iput_drop (r' : Nat → Nat) (h : Base sb r ts s) (hk : k < NINODE)
    (hr : ∀ j < NINODE, r' j + (if j = k then 1 else 0) = r j + ts.count j) :
    Wp (iput k) (fun _ t => Base sb r' [] t ∧ SameTables s t ∧ Steady r' [] s t ∧
      (HeldOK r [] s → SlotsOK s → ∃ T, Dropped (s.itable k).inum (tree s) T ∧
        Busy r' [] T t)) E s := by
  have h' : Base sb r' [k] s := by
    refine h.recount (fun j hj => ?_) (by simpa using hk)
    rw [← hr j hj, count_one]
  refine (wp_iput h').imp ?_
  rintro _ t ⟨hb, hst, hcase⟩
  refine ⟨hb, tables_of_put hcase, hst, fun hheld hslots => ?_⟩
  have hbusy : Busy r' [(s.itable k).inum] (tree s) s := by
    refine ⟨rfl, fun i hi hn => ?_, hslots⟩
    rcases hheld i hi hn with ⟨j, hj, hrj, hji⟩ | hx
    · by_cases hjk : j = k
      · subst hjk
        exact .inr (by simp [hji])
      · have := hr j hj
        rw [if_neg hjk] at this
        exact .inl ⟨j, hj, by omega, hji⟩
    · cases hx
  refine hbusy.iput h' hb hst hcase (by simp) ?_
  intro x hx hne
  exact absurd (mem_singleton.mp hx) hne

lemma Writable.step (hw : Writable s) {n : Nat} (h : Kernel sb s) (hb : Base sb r [] t)
    (hs : SlotsOK s) (ho : Outcome n r s t)
    (hfile : ∀ f < NFILE, (t.ftable f).type = .inode → (t.ftable f).writable = true →
      ((s.ftable f).type = .inode ∧ (s.ftable f).writable = true ∧
        (s.ftable f).ip = (t.ftable f).ip ∧ Held r [] (t.ftable f).ip ∧
        (t.itable (t.ftable f).ip).inum = (s.itable (t.ftable f).ip).inum) ∨
      (tree t).type (t.itable (t.ftable f).ip).inum ≠ .dir) : Writable t := by
  intro f hf ht hwr
  rcases hfile f hf ht hwr with ⟨h1, h2, h3, hheld', hi⟩ | hne
  · have hheld := h.file_held hf (by rw [h1]; decide)
    rw [h3] at hheld
    rw [ho.type_eq hs hheld.1 hi (hheld.ref_pos h.base) (hheld'.ref_pos hb), ← h3]
    exact hw f hf h1 h2
  · exact hne

lemma Kernel.dropped (h : Kernel sb s) (hst0 : Steady (holders s.ftable s.proc) [] s u)
    (hu : Sane (holders s.ftable s.proc) s →
      Busy (holders s.ftable s.proc) [] (tree s) u)
    (htab : Tables ft pr) (hb : Base sb (holders ft pr) [] t)
    (hst : Steady (holders ft pr) [] u t)
    (hput : HeldOK (holders s.ftable s.proc) [] u → SlotsOK u →
      ∃ T, Dropped k (tree u) T ∧ Busy (holders ft pr) [] T t)
    (hfile : ∀ f < NFILE, (ft f).type = .inode → (s.ftable f).type = .inode ∧
      (s.ftable f).writable = (ft f).writable ∧ (s.ftable f).ip = (ft f).ip) :
    Returned sb s { t with ftable := ft, proc := pr } := by
  have hk : Kernel sb { t with ftable := ft, proc := pr } := ⟨hb.setTables ft pr, htab⟩
  refine ⟨hk, fun hs hw => ?_⟩
  have hbusy := hu hs
  obtain ⟨T, hdrop, hT⟩ := hput hbusy.held hbusy.slots
  have ho : Outcome sb.ninodes (holders ft pr) s { t with ftable := ft, proc := pr } := by
    refine ⟨?_, hT.held, hT.slots⟩
    rw [show tree { t with ftable := ft, proc := pr } = T from hT.tree_eq]
    rw [hbusy.tree_eq] at hdrop
    exact .drop k hdrop
  refine ⟨ho, hw.step h (hb.setTables ft pr) hs.slots ho ?_⟩
  intro f hf ht hwr
  obtain ⟨h1, h2, h3⟩ := hfile f hf ht
  have hheld' := hk.file_held hf (by rw [ht]; decide)
  have hheld := h.file_held hf (by rw [h1]; decide)
  refine .inl ⟨h1, h2.trans hwr, h3, hheld', ?_⟩
  rw [h3] at hheld
  exact ((hst _ hheld').1).trans (hst0 _ hheld).1

lemma Kernel.gained (h : Kernel sb s) (hb : Base sb (holders s.ftable s.proc) [k] u)
    (hst : Steady (holders s.ftable s.proc) [] s u)
    (hr : ∀ j, holders ft pr j = holders s.ftable s.proc j + (if j = k then 1 else 0))
    (htab : Tables ft pr)
    (ho : Sane (holders s.ftable s.proc) s →
      Outcome sb.ninodes (holders s.ftable s.proc) s u)
    (hfile : ∀ f < NFILE, (ft f).type = .inode → (ft f).writable = true →
      ((s.ftable f).type = .inode ∧ (s.ftable f).writable = true ∧
        (s.ftable f).ip = (ft f).ip) ∨
      (Sane (holders s.ftable s.proc) s → (tree u).type (u.itable (ft f).ip).inum ≠ .dir)) :
    Returned sb s { u with ftable := ft, proc := pr } := by
  have hb' : Base sb (holders ft pr) [] u := by
    refine hb.recount (fun j _ => ?_) (by simp)
    rw [hr, count_nil, Nat.add_zero, count_one]
  have hk : Kernel sb { u with ftable := ft, proc := pr } := ⟨hb'.setTables ft pr, htab⟩
  refine ⟨hk, fun hs hw => ?_⟩
  have ho' : Outcome sb.ninodes (holders ft pr) s { u with ftable := ft, proc := pr } := by
    refine ⟨(ho hs).step, ?_, (ho hs).slots⟩
    intro i hi hn
    refine ((ho hs).held i hi hn).imp ?_ id
    rintro ⟨j, hj, hrj, hji⟩
    exact ⟨j, hj, by rw [hr]; omega, hji⟩
  refine ⟨ho', hw.step h (hb'.setTables ft pr) hs.slots ho' ?_⟩
  intro f hf ht hwr
  rcases hfile f hf ht hwr with ⟨h1, h2, h3⟩ | hne
  · have hheld := h.file_held hf (by rw [h1]; decide)
    rw [h3] at hheld
    exact .inl ⟨h1, h2, h3, hk.file_held hf (by rw [ht]; decide), (hst _ hheld).1⟩
  · exact .inr (hne hs)

/-! ## `close` -/

lemma wp_sys_close (h : Kernel sb s) (hp : p < NPROC) (hcwd : (s.proc p).cwd ≠ none) (fd : Nat) :
    Wp (sys_close p fd) (fun _ t => Returned sb s t) E s := by
  refine (wp_argfd hp h.tables).bind ?_
  rintro o s1 ⟨rfl, hf⟩
  rcases o with _ | f
  · rw [wp_pure]
    exact h.refl
  obtain ⟨hfd, hof, hlt⟩ := hf f rfl
  have hpos := h.tables.ref_pos hp hfd hof
  rw [modifyProc, wp_modify_bind]
  unfold fileclose
  rw [wp_bind, wp_get_bind]
  dsimp only
  rw [if_neg (by omega)]
  have hcount : ∀ y : File, y.ref = (s1.ftable f).ref - 1 → ∀ g < NFILE,
      (update s1.ftable f y g).ref +
        (if (s1.proc p).ofile fd = some g then 1 else 0) =
      (s1.ftable g).ref + (if (none : Option Nat) = some g then 1 else 0) := by
    intro y hy g _
    rw [hof]
    by_cases hgf : g = f
    · subst hgf
      simp [hy]
      omega
    · simp [hgf, Ne.symm hgf]
  refine wp_ite (fun hmore => ?_) (fun hlast => ?_)
  · rw [modifyFile, wp_modify, wp_pure]
    have hh : holders (update s1.ftable f
        { s1.ftable f with ref := (s1.ftable f).ref - 1 }) s1.proc = holders s1.ftable s1.proc :=
      holders_congr (inode_update rfl rfl) fun _ => rfl
    refine h.retable (h.tables.setFd hp hfd hcwd (by simp) (hcount _ rfl) ?_ ?_) ?_ ?_
    · intro g hg h0
      by_cases hgf : g = f
      · subst hgf
        rw [update_self] at h0
        dsimp only at h0
        omega
      · rw [update_of_ne hgf] at h0 ⊢
        exact h.tables.closed g hg h0
    · exact fun k hk => h.tables.slots k (by rw [← hh]; exact hk)
    · exact holders_congr (inode_update rfl rfl) (cwd_update _ _)
    · intro g
      by_cases hgf : g = f
      · subst hgf
        simp
      · simp [hgf]
  · rw [modifyFile, wp_modify_bind]
    -- the file is closed: its entry of the inode table loses a holder
    have hclosed : ∀ g < NFILE, (update s1.ftable f
        { s1.ftable f with ref := 0, type := .none } g).ref = 0 →
        (update s1.ftable f
          { s1.ftable f with ref := 0, type := .none } g).type = .none := by
      intro g hg h0
      by_cases hgf : g = f
      · subst hgf
        simp
      · rw [update_of_ne hgf] at h0 ⊢
        exact h.tables.closed g hg h0
    have hdrop : ∀ k, holders (update s1.ftable f
        { s1.ftable f with ref := 0, type := .none }) s1.proc k +
          (if (s1.ftable f).inode = some k then 1 else 0) = holders s1.ftable s1.proc k :=
      fun k => holders_file s1.ftable s1.proc hlt
        { s1.ftable f with ref := 0, type := .none } k
    have htab : Tables (update s1.ftable f
        { s1.ftable f with ref := 0, type := .none }) (update s1.proc p
        { s1.proc p with ofile := update (s1.proc p).ofile fd none }) := by
      refine h.tables.setFd hp hfd hcwd (by simp) (hcount _ (by dsimp only; omega)) hclosed ?_
      intro k hk
      have := hdrop k
      exact h.tables.slots k (by omega)
    have hother : ∀ g, g ≠ f → update s1.ftable f
        { s1.ftable f with ref := 0, type := .none } g = s1.ftable g :=
      fun g hg => update_of_ne hg _ _
    have hself : (update s1.ftable f
        { s1.ftable f with ref := 0, type := .none } f).type = .none := by
      simp
    apply wp_ite <;> intro htype
    · have hheld := h.file_held hlt htype
      rw [show ((s1.ftable f).inode) = some (s1.ftable f).ip by simp [File.inode, htype]] at hdrop
      rw [← holders_congr (fun _ => rfl) (cwd_update (p := p) s1.proc
        (update (s1.proc p).ofile fd none))] at hdrop
      generalize update s1.ftable f { s1.ftable f with ref := 0, type := .none } = ft at *
      generalize update s1.proc p
        { s1.proc p with ofile := update (s1.proc p).ofile fd none } = pr at *
      refine (wp_iput_drop (holders ft pr) (h.base.setTables ft pr) hheld.1 ?_).imp ?_
      · intro j _
        rw [← hdrop j, count_nil, Nat.add_zero, ite_some]
      · rintro _ t ⟨hb, htabs, hst, hput⟩
        have hfin := h.dropped (Steady.refl _ _ _) (fun hs => hs.toSound.busy) htab hb hst hput ?_
        · rw [show t = { t with ftable := ft, proc := pr } by
            rw [← show t.ftable = ft from htabs.1, ← show t.proc = pr from htabs.2]]
          rw [wp_pure]
          exact hfin
        · intro g _ hg
          by_cases hgf : g = f
          · subst hgf
            rw [hself] at hg
            cases hg
          · rw [hother g hgf] at hg ⊢
            exact ⟨hg, rfl, rfl⟩
    · rw [wp_pure, wp_pure]
      have hno : ∀ g, (update s1.ftable f
          { s1.ftable f with ref := 0, type := .none } g).inode = (s1.ftable g).inode := by
        intro g
        by_cases hgf : g = f
        · subst hgf
          simp [File.inode, htype]
        · rw [hother g hgf]
      refine h.retable htab (holders_congr hno (cwd_update _ _)) ?_
      intro g hg
      by_cases hgf : g = f
      · subst hgf
        rw [hself] at hg
        cases hg
      · rw [hother g hgf] at hg ⊢
        exact ⟨hg, rfl, rfl⟩

/-! ## Current directories -/

lemma ofile_update (c : Option Nat) (q : Nat) :
    (update pr p { pr p with cwd := c } q).ofile = (pr q).ofile := by
  by_cases hq : q = p
  · subst hq
    simp
  · simp [hq]

lemma Tables.setCwd (h : Tables ft pr) (hp : p < NPROC) {c : Option Nat}
    (hidle : c = none → ∀ fd < NOFILE, (pr p).ofile fd = none)
    (hc : ∀ k, c = some k → k < NINODE) :
    Tables ft (update pr p { pr p with cwd := c }) := by
  refine ⟨?_, h.closed, ?_, ?_, ?_⟩
  · rw [openCount_congr fun q _ fd _ => congrFun (ofile_update c q) fd]
    exact h.files
  · intro q hq
    rw [ofile_update]
    exact h.fds q hq
  · intro q hq
    rw [ofile_update]
    by_cases hqp : q = p
    · subst hqp
      rw [update_self]
      exact hidle
    · rw [update_of_ne hqp]
      exact h.idle q hq
  · intro k hk
    have := holders_proc ft pr hp { pr p with cwd := c } k
    by_cases hck : c = some k
    · exact hc k hck
    · rw [if_neg hck] at this
      exact h.slots k (by omega)

lemma wp_exit (h : Kernel sb s) (hE : Tolerates E) (hp : p < NPROC)
    (hno : ∀ fd < NOFILE, (s.proc p).ofile fd = none) :
    Wp (exit p) (fun _ t => Returned sb s t ∧ t.ftable = s.ftable ∧
      t.proc = update s.proc p { s.proc p with cwd := none }) E s := by
  refine wp_ite (fun _ => (wp_throw _).mpr (hE _ (by decide))) (fun _ => ?_)
  rw [wp_get_bind]
  split
  · rw [wp_throw]
    exact hE _ (by decide)
  rename_i cwd hcwd
  have hheld := h.cwd_held hp cwd hcwd
  have htab := h.tables.setCwd (c := none) hp (fun _ => hno) (by simp)
  refine (wp_iput_drop (holders s.ftable (update s.proc p
    { s.proc p with cwd := none })) h.base hheld.1 ?_).bind ?_
  · intro j _
    have := holders_proc s.ftable s.proc hp { s.proc p with cwd := none } j
    rw [hcwd, ite_some] at this
    exact this
  · rintro _ t ⟨hb, htabs, hst, hput⟩
    rw [modifyProc, wp_modify_bind, wp_pure, htabs.2]
    have hfin := h.dropped (Steady.refl _ _ s) (fun hs => hs.toSound.busy) htab hb hst hput
      fun f _ hf => ⟨hf, rfl, rfl⟩
    rw [← htabs.1] at hfin
    exact ⟨hfin, htabs.1, rfl⟩

lemma wp_sys_chdir (h : Kernel sb s) (hm : CallMode s E) (hE : Tolerates E) (hp : p < NPROC)
    (path : List UInt8) : Wp (sys_chdir sb p path) (fun _ t => Returned sb s t) E s := by
  refine (wp_namei hE path h.base hm.mode (h.cwd_held hp)).bind ?_
  rintro o s1 ⟨mv1, hfound⟩
  rcases o with _ | ip
  · rw [wp_pure]
    exact h.returned (done_of_moved hfound mv1)
  have hip := held_temp hfound mem_cons_self
  refine (wp_ilock_moved hfound hip (hm.mode.moved mv1)).bind ?_
  rintro _ s2 ⟨h2, mv2, _, _, _⟩
  have mv12 : Moved (holders s.ftable s.proc) [] s s2 := mv1.trans (mv2.mono (by simp))
  rw [wp_get_bind]
  apply wp_ite <;> intro _
  · refine (wp_iunlockput_moved h2).bind ?_
    rintro _ t ⟨hb, mv⟩
    rw [wp_pure]
    exact h.returned (done_of_moved hb (mv12.trans mv))
  refine (wp_iunlock h2 hip).bind ?_
  rintro _ _ rfl
  split
  · rw [wp_throw]
    exact hE _ (by decide)
  rename_i s2 _ cwd hcwd
  rw [mv12.proc] at hcwd
  have hheld := h.cwd_held hp cwd hcwd
  have htab := h.tables.setCwd (c := some ip) hp (by simp) (by simpa using hip.1)
  refine (wp_iput_drop (holders s.ftable (update s.proc p
    { s.proc p with cwd := some ip })) h2 hheld.1 ?_).bind ?_
  · intro j _
    have := holders_proc s.ftable s.proc hp { s.proc p with cwd := some ip } j
    rw [hcwd, ite_some] at this
    rw [this, count_one, ← ite_some]
  · rintro _ t ⟨hb, htabs, hst, hput⟩
    rw [modifyProc, wp_modify_bind, wp_pure, htabs.2, mv12.proc]
    have hfin := h.dropped mv12.steady (fun hs => ?_) htab hb hst hput
      fun f _ hf => ⟨hf, rfl, rfl⟩
    · rw [← mv12.ftable, ← htabs.1] at hfin
      exact hfin
    · obtain ⟨hl, hsound⟩ := mv12.quiet hs.toSound
      rw [← tree_lookup hl]
      exact hsound.busy

/-! ## `fork` -/

/-- The files after those behind the descriptors `fds` of process `p` are duplicated. -/
def dupFiles (s : Fs) (p : Nat) (fds : List Nat) (g : Nat) : File :=
  { s.ftable g with
    ref := (s.ftable g).ref + (fds.filter fun fd => (s.proc p).ofile fd = some g).length }

lemma wp_forkFiles (p : Nat) (fds : List Nat)
    (hpos : ∀ fd ∈ fds, ∀ f, (s.proc p).ofile fd = some f → 0 < (s.ftable f).ref) :
    Wp (forkFiles p fds) (fun _ t => t = { s with ftable := dupFiles s p fds }) E s := by
  induction fds generalizing s with
  | nil =>
    rw [forkFiles, wp_pure]
    rfl
  | cons fd fds ih =>
    rw [forkFiles, wp_get_bind]
    split
    · rename_i hnone
      refine (ih fun x hx => hpos x (mem_cons_of_mem _ hx)).imp ?_
      rintro _ t rfl
      congr 1
      funext g
      simp [dupFiles, hnone]
    · rename_i f hf
      have href := hpos fd mem_cons_self f hf
      unfold filedup
      rw [wp_bind, wp_get_bind, if_neg (by omega), modifyFile, wp_modify]
      refine (ih ?_).imp ?_
      · intro x hx g hg
        have := hpos x (mem_cons_of_mem _ hx) g hg
        by_cases hgf : g = f
        · subst hgf
          simp
        · simpa [hgf] using this
      · rintro _ t rfl
        congr 1
        funext g
        by_cases hgf : g = f
        · subst hgf
          simp [dupFiles, hf]
          omega
        · simp [dupFiles, hf, hgf, Ne.symm hgf]

lemma wp_fork (h : Kernel sb s) (hE : Tolerates E) (hp : p < NPROC) {q : Nat} (hq : q < NPROC)
    (hqno : (s.proc q).cwd = none) : Wp (fork p q) (fun _ t => Returned sb s t ∧
      (∀ f, (t.ftable f).pipeEnd = (s.ftable f).pipeEnd) ∧
      t.proc = update s.proc q ((s.proc p).child (s.proc q))) E s := by
  refine (wp_forkFiles p (List.range NOFILE) ?_).bind ?_
  · intro fd hfd f hf
    exact h.tables.ref_pos hp (mem_range.mp hfd) hf
  rintro _ s1 rfl
  rw [wp_get_bind]
  split
  · rw [wp_throw]
    exact hE _ (by decide)
  rename_i cwd hcwd
  have hinode : ∀ g, (dupFiles s p (List.range NOFILE) g).inode = (s.ftable g).inode :=
    fun _ => rfl
  -- the slot of the child has no file of its own
  have hchild : ∀ fd < NOFILE, ((s.proc p).child (s.proc q)).ofile fd = (s.proc p).ofile fd := by
    intro fd hfd
    simp [Proc.child, h.tables.idle q hq hqno fd hfd]
  have hmore : ∀ j, holders (dupFiles s p (List.range NOFILE))
      (update s.proc q ((s.proc p).child (s.proc q))) j =
        holders s.ftable s.proc j + (if j = cwd then 1 else 0) := by
    intro j
    have := holders_proc s.ftable s.proc hq ((s.proc p).child (s.proc q)) j
    rw [hqno, show ((s.proc p).child (s.proc q)).cwd = some cwd from hcwd, ite_some] at this
    rw [← this, if_neg (by simp), Nat.add_zero]
    exact congrFun (holders_congr hinode fun _ => rfl) j
  have hheld := h.cwd_held hp cwd hcwd
  have htab : Tables (dupFiles s p (List.range NOFILE))
      (update s.proc q ((s.proc p).child (s.proc q))) := by
    refine ⟨?_, ?_, ?_, ?_, ?_⟩
    · intro f hf
      rw [openCount_fork hq (h.tables.idle q hq hqno), ← h.tables.files f hf,
        occ_congr (g := (s.proc p).ofile) fun fd hfd => hchild fd (Finset.mem_range.mp hfd),
        occ_range]
      rfl
    · intro f hf h0
      have h1 : (s.ftable f).ref = 0 := by
        simp only [dupFiles] at h0
        omega
      exact h.tables.closed f hf h1
    · intro x hx fd hfd f hf
      by_cases hxq : x = q
      · subst hxq
        rw [update_self, hchild fd hfd] at hf
        exact h.tables.fds p hp fd hfd f hf
      · rw [update_of_ne hxq] at hf
        exact h.tables.fds x hx fd hfd f hf
    · intro x hx hc
      by_cases hxq : x = q
      · subst hxq
        rw [update_self, show ((s.proc p).child (s.proc x)).cwd = some cwd from hcwd] at hc
        cases hc
      · rw [update_of_ne hxq] at hc ⊢
        exact h.tables.idle x hx hc
    · intro k hk
      rw [hmore] at hk
      by_cases hkc : k = cwd
      · rw [hkc]
        exact hheld.1
      · rw [if_neg hkc] at hk
        exact h.tables.slots k (by omega)
  have hsame : ∀ f, (dupFiles s p (List.range NOFILE) f).type = .inode →
      (dupFiles s p (List.range NOFILE) f).writable = true → (s.ftable f).type = .inode ∧
        (s.ftable f).writable = true ∧
        (s.ftable f).ip = (dupFiles s p (List.range NOFILE) f).ip :=
    fun _ hf hw => ⟨hf, hw, rfl⟩
  have hends : ∀ f, (dupFiles s p (List.range NOFILE) f).pipeEnd = (s.ftable f).pipeEnd :=
    fun _ => rfl
  generalize dupFiles s p (List.range NOFILE) = ft at *
  refine (wp_idup_moved (h.base.setTables ft s.proc) hheld).bind ?_
  rintro _ t ⟨rfl, hb, mv, _⟩
  rw [modifyProc, wp_modify_bind, wp_pure, show t.proc = s.proc from mv.proc]
  have hfin := h.gained hb mv.steady hmore htab (fun hs => ?_)
    fun f _ hf hw => .inl (hsame f hf hw)
  · rw [← show t.ftable = ft from mv.ftable] at hfin hends
    exact ⟨hfin, hends, rfl⟩
  · obtain ⟨hl, hsound⟩ := mv.quiet { hs with }
    have htree : tree t = tree s := by
      rw [tree_lookup hl]
      rfl
    refine outcome_of_same ?_
    rw [← htree]
    exact hsound.busy

end xv6.fs
