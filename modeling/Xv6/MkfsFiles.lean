-- The command line of `mkfs`. Each file takes an inode and an entry in the root
-- directory, and the size of the root is rounded up at the end. The program
-- checks neither that the inode is in the table nor that the last block of the
-- root is there.
import Xv6.MkfsImages

open bytes ownership wp Function List

namespace xv6.mkfs

open fs

variable {σ σ' : Mk} {p : Plan} {s : Fs}

/-! ## The command line -/

lemma entry_length (inum : Nat) (name : Name) : (entry inum name).length = DIRENT := by
  simp [entry]

def Bare (p : Plan) : Prop :=
  p.freeblock = nmeta + blocksFor (p.contents ROOTINO).length

def Arg.Empty (arg : Arg) : Prop := slash ∉ shortname arg.path ∧ arg.contents = some []

lemma wp_iappend_root (h : Stands σ p) (h2 : ROOTINO < p.freeinode) (inum : Nat) (name : Name) :
    Wp (iappend ROOTINO (entry inum name)) (fun _ σ' => ∃ q : Plan, Stands σ' q ∧
        q.freeinode = p.freeinode ∧
        (q.contents ROOTINO).length = (p.contents ROOTINO).length + DIRENT ∧ (Bare p → Bare q))
      (fun _ => ¬ (Bare p ∧ (p.contents ROOTINO).length + DIRENT ≤ BSIZE)) σ := by
  refine ((wp_iappend h (by decide) h2 (entry inum name)).imp ?_).errors ?_
  · intro _ σ' hs
    have hlen : ((p.step (.iappend ROOTINO (entry inum name))).contents ROOTINO).length =
        (p.contents ROOTINO).length + DIRENT := by
      simp [Plan.step, entry_length]
    refine ⟨_, hs, rfl, hlen, fun hb => ?_⟩
    unfold Bare at *
    rw [hlen]
    simp only [Plan.step, entry_length]
    rw [hb]
    have := blocksFor_mono (Nat.le_add_right (p.contents ROOTINO).length DIRENT)
    omega
  · rintro _ hno ⟨hb, hlen⟩
    apply hno
    rw [entry_length]
    have hmax : BSIZE ≤ MAXFILE * BSIZE := by decide
    have hone : blocksFor BSIZE = 1 := by decide
    have hmono := blocksFor_mono hlen
    have hmeta : nmeta = 46 := rfl
    have hsize : FSSIZE = 2000 := rfl
    refine ⟨by omega, ?_⟩
    rw [h.freeblock, hb]
    omega

lemma wp_appendFile (h : Stands σ p) {inum : Nat} (h1 : ROOTINO < inum) (h2 : inum < p.freeinode)
    (fuel : Nat) (bs : List UInt8) :
    Wp (appendFile inum fuel bs) (fun _ σ' => ∃ q : Plan, Stands σ' q ∧ q.freeinode = p.freeinode ∧
      q.contents ROOTINO = p.contents ROOTINO ∧ (bs = [] → q = p)) (fun _ => bs ≠ []) σ := by
  induction fuel generalizing σ p bs with
  | zero =>
    simp only [appendFile, wp_pure]
    exact ⟨p, h, rfl, rfl, fun _ => rfl⟩
  | succ fuel ih =>
    apply wp_ite <;> intro hpos
    · have hne : bs ≠ [] := ne_nil_of_length_pos hpos
      have hroot : 1 ≤ inum := Nat.le_of_lt h1
      refine ((wp_iappend h hroot h2 (bs.take BSIZE)).errors fun _ _ => hne).bind ?_
      rintro _ σ' hs
      refine ((ih hs h2 (bs.drop BSIZE)).imp ?_).errors fun _ _ => hne
      rintro _ σ'' ⟨q, hq, hi, hc, _⟩
      refine ⟨q, hq, hi, ?_, fun hnil => absurd hnil hne⟩
      rw [hc]
      simp only [Plan.step]
      rw [update_of_ne (by omega)]
    · rw [wp_pure]
      exact ⟨p, h, rfl, rfl, fun _ => rfl⟩

lemma wp_addFile (h : Stands σ p) (h1 : ROOTINO < p.freeinode) (h2 : p.freeinode < NINODES)
    (arg : Arg) :
    Wp (addFile arg) (fun _ σ' => ∃ q : Plan, Stands σ' q ∧ q.freeinode = p.freeinode + 1 ∧
        (q.contents ROOTINO).length = (p.contents ROOTINO).length + DIRENT ∧
        (Bare p → arg.Empty → Bare q))
      (fun _ => ¬ (Bare p ∧ arg.Empty ∧ (p.contents ROOTINO).length + DIRENT ≤ BSIZE)) σ := by
  apply wp_ite <;> intro hsl
  · rw [wp_throw]
    rintro ⟨_, he, _⟩
    exact he.1 hsl
  · split
    · rename_i hc
      rw [wp_throw]
      rintro ⟨_, ⟨_, he⟩, _⟩
      rw [hc] at he
      cases he
    · rename_i bs hc
      have hfirst : 1 ≤ p.freeinode := Nat.le_of_lt h1
      refine (wp_ialloc h h2 hfirst (by decide)).bind ?_
      rintro _ σ₁ ⟨rfl, hs⟩
      have hroot : (p.step (.ialloc .file)).contents ROOTINO = p.contents ROOTINO := by
        simp only [Plan.step]
        rw [update_of_ne (by omega)]
      have hbare : Bare p ↔ Bare (p.step (.ialloc .file)) := by
        unfold Bare
        rw [hroot]
        rfl
      have hin : ROOTINO < (p.step (.ialloc .file)).freeinode := Nat.lt_succ_of_lt h1
      refine ((wp_iappend_root hs hin _ _).errors ?_).bind ?_
      · rintro _ hno ⟨hb, _, hlen⟩
        apply hno
        rw [hroot]
        exact ⟨hbare.mp hb, hlen⟩
      · rintro _ σ₂ ⟨q, hq, hi, hlen, hb⟩
        have hq2 : p.freeinode < q.freeinode := by
          rw [hi]
          exact Nat.lt_succ_self _
        refine ((wp_appendFile hq h1 hq2 bs.length bs).imp ?_).errors ?_
        · rintro _ σ₃ ⟨r, hr, hri, hrc, hrb⟩
          refine ⟨r, hr, hri.trans hi, by rw [hrc, hlen, hroot], fun hp he => ?_⟩
          have hnil : bs = [] := by
            rw [he.2] at hc
            exact (Option.some.inj hc).symm
          rw [hrb hnil]
          exact hb (hbare.mp hp)
        · rintro _ hne ⟨_, he, _⟩
          rw [he.2] at hc
          exact hne (Option.some.inj hc).symm

lemma wp_addFiles (h : Stands σ p) (h1 : ROOTINO < p.freeinode) (args : List Arg)
    (h2 : p.freeinode + args.length ≤ NINODES) :
    Wp (addFiles args) (fun _ σ' => ∃ q : Plan, Stands σ' q ∧
        q.freeinode = p.freeinode + args.length ∧
        (q.contents ROOTINO).length = (p.contents ROOTINO).length + DIRENT * args.length)
      (fun _ => ¬ (Bare p ∧ (∀ arg ∈ args, arg.Empty) ∧
        (p.contents ROOTINO).length + DIRENT * args.length ≤ BSIZE)) σ := by
  induction args generalizing σ p with
  | nil =>
    simp only [addFiles, wp_pure]
    exact ⟨p, h, rfl, rfl⟩
  | cons arg args ih =>
    have hmul : DIRENT * (args.length + 1) = DIRENT * args.length + DIRENT := Nat.mul_succ ..
    rw [length_cons] at h2 ⊢
    refine ((wp_addFile h h1 (by omega) arg).errors ?_).bind ?_
    · rintro _ hno ⟨hb, he, hlen⟩
      exact hno ⟨hb, he arg (mem_cons_self ..), by omega⟩
    · rintro _ σ' ⟨q, hq, hi, hlen, hb⟩
      refine ((ih hq (by omega) (by omega)).imp ?_).errors ?_
      · rintro _ σ'' ⟨r, hr, hri, hrl⟩
        exact ⟨r, hr, by omega, by omega⟩
      · rintro _ hno ⟨hp, he, hl⟩
        refine hno ⟨hb hp (he arg (mem_cons_self ..)), ?_, by omega⟩
        intro a ha
        exact he a (mem_cons_of_mem _ ha)

/-- The image before the root directory gets its last size: `n` files and the two entries of
the root itself. -/
structure Listed (σ : Mk) (n : Nat) (p : Plan) : Prop where
  stands : Stands σ p
  freeinode : p.freeinode = n + 2
  root : (p.contents ROOTINO).length = DIRENT * (n + 2)

/-- `main` up to the size of the root directory. -/
def makeFiles (args : List Arg) : M Unit := do
  format
  let rootino ← ialloc .dir
  if rootino = ROOTINO then do
    iappend rootino (entry rootino dot)
    iappend rootino (entry rootino dotdot)
    addFiles args
  else
    throw .assert

lemma wp_makeFiles (args : List Arg) (h : args.length + 2 ≤ NINODES) :
    Wp (makeFiles args) (fun _ σ => ∃ p, Listed σ args.length p)
      (fun _ => ¬ ((∀ arg ∈ args, arg.Empty) ∧ DIRENT * (args.length + 2) ≤ BSIZE)) fresh := by
  have hdir : DIRENT = 16 := rfl
  have hsize : BSIZE = 1024 := rfl
  have hmul := Nat.mul_add DIRENT args.length 2
  refine wp_format.bind ?_
  rintro _ _ rfl
  refine (wp_ialloc stands_formatted (by decide) (le_refl _) (by decide)).bind ?_
  rintro _ σ₁ ⟨rfl, hs⟩
  rw [if_pos (by decide)]
  have hbare : Bare (Plan.start.step (.ialloc .dir)) := by
    unfold Bare
    decide
  have hlen₁ : ((Plan.start.step (.ialloc .dir)).contents ROOTINO).length = 0 := rfl
  have hin : ROOTINO < (Plan.start.step (.ialloc .dir)).freeinode := by decide
  refine ((wp_iappend_root hs hin _ _).errors ?_).bind ?_
  · rintro _ hno ⟨_, hl⟩
    exact hno ⟨hbare, by omega⟩
  · rintro _ σ₂ ⟨q, hq, hi, hlen, hb⟩
    refine ((wp_iappend_root hq (by rw [hi]; exact hin) _ _).errors ?_).bind ?_
    · rintro _ hno ⟨_, hl⟩
      exact hno ⟨hb hbare, by omega⟩
    · rintro _ σ₃ ⟨r, hr, hri, hrl, hrb⟩
      have hfree : r.freeinode = 2 := hri.trans hi
      have hroot : ROOTINO < r.freeinode := by
        rw [hfree]
        decide
      refine ((wp_addFiles hr hroot args (by omega)).imp ?_).errors ?_
      · rintro _ σ₄ ⟨u, hu, hui, hul⟩
        exact ⟨u, hu, by omega, by omega⟩
      · rintro _ hno ⟨he, hl⟩
        exact hno ⟨hrb (hb hbare), he, by omega⟩

lemma main_eq (args : List Arg) : main args = (do
    makeFiles args
    fixRoot
    let σ ← get
    mkfs.balloc σ.freeblock) := by
  unfold main makeFiles
  rw [bind_assoc]
  congr 1
  funext _
  rw [bind_assoc]
  congr 1
  funext rootino
  split
  · simp only [bind_assoc]
  · rfl

/-! ## The number of inodes -/

/-- The program does not take an inode. -/
def Spares {α : Type} (m : M α) : Prop :=
  ∀ σ, Wp m (fun _ σ' => σ'.freeinode = σ.freeinode) (fun _ => True) σ

lemma Spares.bind {α β : Type} {m : M α} {f : α → M β} (h : Spares m) (hf : ∀ a, Spares (f a)) :
    Spares (m >>= f) := by
  intro σ
  refine (h σ).bind ?_
  intro a σ' hσ
  refine (hf a σ').imp ?_
  intro b σ'' hσ'
  exact hσ'.trans hσ

lemma Spares.ite {α : Type} {c : Prop} [Decidable c] {m n : M α} (h : Spares m) (h' : Spares n) :
    Spares (if c then m else n) := by
  split
  · exact h
  · exact h'

lemma spares_pure {α : Type} (a : α) : Spares (pure a : M α) := by
  intro σ
  rw [wp_pure]

lemma spares_throw {α : Type} (e : Exit) : Spares (throw e : M α) := by
  intro σ
  rw [wp_throw]
  trivial

lemma spares_rsect (sec : Nat) : Spares (rsect sec) :=
  fun _ => wp_rsect (fun _ => rfl) (fun _ => trivial)

lemma spares_wsect (sec : Nat) (buf : Bytes) : Spares (wsect sec buf) := by
  intro σ
  rw [wp_wsect]

lemma spares_takeBlock : Spares takeBlock := by
  intro σ
  unfold takeBlock
  rw [wp_get_bind, wp_set_bind, wp_pure]

lemma spares_winode (inum : Nat) (d : Dinode) : Spares (winode inum d) :=
  (spares_rsect _).bind fun _ => spares_wsect _ _

lemma spares_takeAddr (din : Dinode) (pos : Nat) : Spares (takeAddr din pos) :=
  (spares_takeBlock.bind fun _ => spares_pure _).ite (spares_pure _)

lemma spares_iappendBlock (din : Dinode) (fbn : Nat) : Spares (iappendBlock din fbn) := by
  apply Spares.ite
  · exact (spares_takeAddr _ _).bind fun _ => spares_pure _
  · refine (spares_takeAddr _ _).bind fun d => (spares_rsect _).bind fun ind => ?_
    apply Spares.ite
    · exact spares_takeBlock.bind fun _ => (spares_wsect _ _).bind fun _ => spares_pure _
    · exact spares_pure _

lemma spares_iappendLoop (fuel : Nat) (din : Dinode) (off : Nat) (bs : List UInt8) :
    Spares (iappendLoop fuel din off bs) := by
  induction fuel generalizing din off bs with
  | zero => exact spares_pure _
  | succ fuel ih =>
    apply Spares.ite
    · apply Spares.ite
      · refine (spares_iappendBlock _ _).bind fun r => (spares_rsect _).bind fun buf => ?_
        exact (spares_wsect _ _).bind fun _ => ih _ _ _
      · exact spares_throw _
    · exact spares_pure _

lemma spares_iappend (inum : Nat) (bs : List UInt8) : Spares (iappend inum bs) := by
  refine ((spares_rsect _).bind fun _ => spares_pure _).bind fun din => ?_
  exact (spares_iappendLoop _ _ _ _).bind fun r => spares_winode _ _

lemma spares_appendFile (inum fuel : Nat) (bs : List UInt8) :
    Spares (appendFile inum fuel bs) := by
  induction fuel generalizing bs with
  | zero => exact spares_pure _
  | succ fuel ih =>
    exact ((spares_iappend _ _).bind fun _ => ih _).ite (spares_pure _)

lemma spares_fixRoot : Spares fixRoot :=
  ((spares_rsect _).bind fun _ => spares_pure _).bind fun _ => spares_winode _ _

lemma wp_ialloc_count (type : FileType) (σ : Mk) :
    Wp (ialloc type) (fun _ σ' => σ'.freeinode = σ.freeinode + 1) (fun _ => True) σ := by
  unfold ialloc
  rw [wp_get_bind, wp_set_bind]
  refine (spares_winode _ _ _).bind fun _ σ' h => ?_
  rw [wp_pure]
  exact h

lemma wp_addFiles_count (args : List Arg) (σ : Mk) :
    Wp (addFiles args) (fun _ σ' => σ'.freeinode = σ.freeinode + args.length) (fun _ => True)
      σ := by
  induction args generalizing σ with
  | nil =>
    simp only [addFiles, wp_pure]
    rfl
  | cons arg args ih =>
    have hfile : Wp (addFile arg) (fun _ σ' => σ'.freeinode = σ.freeinode + 1) (fun _ => True)
        σ := by
      apply wp_ite <;> intro _
      · rw [wp_throw]
        trivial
      · split
        · rw [wp_throw]
          trivial
        · refine (wp_ialloc_count _ _).bind fun inum σ₁ h₁ => ?_
          rw [← h₁]
          exact ((spares_iappend _ _).bind fun _ => spares_appendFile _ _ _) σ₁
    refine hfile.bind fun _ σ₁ h₁ => ?_
    refine (ih σ₁).imp fun _ σ₂ h₂ => ?_
    rw [h₂, h₁, length_cons]
    omega

lemma wp_main_count (args : List Arg) :
    Wp (main args) (fun _ σ => σ.freeinode = args.length + 2) (fun _ => True) fresh := by
  refine wp_format.bind ?_
  rintro _ _ rfl
  refine (wp_ialloc_count .dir formatted).bind fun rootino σ₁ h₁ => ?_
  have hstart : σ₁.freeinode = 2 := h₁
  apply wp_ite <;> intro _
  · refine (spares_iappend _ _ σ₁).bind fun _ σ₂ h₂ => ?_
    refine (spares_iappend _ _ σ₂).bind fun _ σ₃ h₃ => ?_
    refine (wp_addFiles_count args σ₃).bind fun _ σ₄ h₄ => ?_
    refine (spares_fixRoot σ₄).bind fun _ σ₅ h₅ => ?_
    rw [wp_get_bind]
    have hballoc : Spares (mkfs.balloc σ₅.freeblock) := (spares_wsect _ _).ite (spares_throw _)
    refine (hballoc σ₅).imp fun _ σ₆ h₆ => ?_
    omega
  · rw [wp_throw]
    trivial

/-! ## What the program leaves -/

def rootSize (n : Nat) : Nat := (DIRENT * (n + 2) / BSIZE + 1) * BSIZE

/-- The image at the end of `main`, over what stood before the root got its size. -/
structure Made (σ : Mk) (n : Nat) (σ' : Mk) (s : Fs) : Prop where
  init : fsinit σ'.img = .ok (rootSb, s)
  tables : s = blank s.bitmap s.dinode s.data
  bits : ∀ b < rootSb.size, s.bitmap b = (view σ).bitmap b
  dinode : s.dinode = update (dinodes σ.img) ROOTINO
    { dinodes σ.img ROOTINO with size := rootSize n }
  data : ∀ b, nmeta ≤ b → s.data b = (view σ).data b

lemma wp_finish {n : Nat} {E : Exit → Prop} (h : Listed σ n p) :
    Wp (do
      fixRoot
      let σ ← get
      mkfs.balloc σ.freeblock) (fun _ σ' => ∃ s, Made σ n σ' s) E σ := by
  have hi : ROOTINO < NINODES := by decide
  have hin : ROOTINO < p.freeinode := by
    rw [h.freeinode]
    exact Nat.lt_add_left n (by decide)
  have hdin : getDinode (σ.img (IBLOCK ROOTINO)) (ROOTINO % IPB * DINODE) =
      dinodes σ.img ROOTINO := rfl
  have hsize : (dinodes σ.img ROOTINO).size = DIRENT * (n + 2) :=
    (h.stands.shows.sizes ROOTINO (le_refl _) hin).trans h.root
  have hstore : Storable { dinodes σ.img ROOTINO with size := rootSize n } := by
    have hs : Storable (dinodes σ.img ROOTINO) := storable_getDinode _ _
    refine ⟨hs.major, hs.minor, hs.nlink, ?_, hs.addrs, hs.outside⟩
    have hlast := h.stands.last
    rw [h.freeinode] at hlast
    have h1 : NINODES = 200 := rfl
    have h2 : DIRENT = 16 := rfl
    have h3 : BSIZE = 1024 := rfl
    simp only [rootSize]
    rw [h2, h3]
    omega
  unfold fixRoot rinode
  rw [wp_bind, wp_bind, wp_bind]
  apply wp_rsect
  · intro _
    rw [wp_pure, hdin, hsize]
    apply wp_winode
    · exact h.stands.inode_in hi
    · rw [wp_get_bind]
      obtain ⟨hb1, hb2⟩ := IBLOCK_meta hi
      refine (wp_balloc ?_ ?_).imp ?_
      · simp only [written]
        rw [update_of_ne (by omega), h.stands.super]
      · exact h.stands.room
      · rintro _ σ' ⟨hinit, _⟩
        refine ⟨_, hinit, rfl, fun b hb => finished_bitmap _ hb, ?_, ?_⟩
        · exact view_winode hi hstore σ
        · intro b hb
          rw [finished_data _ hb]
          simp only [view, blank, written]
          rw [update_of_ne (by omega)]
  · intro hout
    have := h.stands.inode_in hi
    omega

/-- What is asked of a finished image: the inodes that were taken are in the table, each block
of a file is a data block of its own, no file has a hole, and to read a file the kernel takes
no block. -/
def WellMade (σ : Mk) : Prop :=
  ∃ s, fsinit σ.img = .ok (rootSb, s) ∧
    (∀ i, 1 ≤ i → i < σ.freeinode → i < rootSb.ninodes) ∧
    (∀ q, refAt s q ≠ 0 → nmeta ≤ refAt s q ∧ refAt s q < rootSb.size) ∧
    (∀ q r, refAt s q ≠ 0 → refAt s q = refAt s r → q = r) ∧
    (∀ i, (s.dinode i).type ≠ .free → ∀ bn, bn * BSIZE < (s.dinode i).size → blockOf s i bn ≠ 0) ∧
    ∀ i, (s.dinode i).type ≠ .free → ∀ off n, ∃ r t, (readInode i off n).run s = .ok (r, t) ∧
      t.bitmap = s.bitmap ∧ t.data = s.data

section
variable {n : Nat}

lemma Made.refs (h : Listed σ n p) (hm : Made σ n σ' s) : refAt s = refAt (view σ) := by
  refine refAt_of_same h.stands.shows.owned ?_ hm.data
  intro i
  rw [hm.dinode]
  by_cases hi : i = ROOTINO
  · subst hi
    rw [update_self]
    exact ⟨rfl, rfl⟩
  · rw [update_of_ne hi]
    exact ⟨rfl, rfl⟩

lemma Listed.rooted (h : Listed σ n p) : Holds (view σ) ROOTINO (p.contents ROOTINO) := by
  apply h.stands.shows.files ROOTINO (le_refl _)
  rw [h.freeinode]
  exact Nat.lt_add_left n (by decide)

lemma Made.owned (h : Listed σ n p) (hm : Made σ n σ' s) (hn : (n + 2) % 64 ≠ 0) :
    Owned rootSb s := by
  have ho := h.stands.shows.owned
  have hrefs := hm.refs h
  have h1 : DIRENT = 16 := rfl
  have h2 : BSIZE = 1024 := rfl
  have hlast := h.stands.last
  rw [h.freeinode] at hlast
  have h3 : NINODES = 200 := rfl
  have h4 : MAXFILE = 268 := rfl
  have hroot := h.root
  refine ⟨ho.bits, ⟨ho.exact.low_pos, ?_, ?_, ?_⟩, ?_, ?_⟩
  · rw [hrefs]
    exact ho.exact.range
  · rw [hrefs]
    exact ho.exact.inj
  · intro b hb
    rw [hm.bits b hb, hrefs]
    exact ho.exact.bits b hb
  · intro i ht bn hbn
    rw [hm.dinode] at ht hbn
    unfold blockOf
    rw [hrefs]
    by_cases hi : i = ROOTINO
    · subst hi
      rw [update_self] at hbn
      apply (h.rooted.mapped bn).mpr
      simp only [rootSize] at hbn
      rw [h1, h2] at hbn
      rw [hroot, h1, h2]
      omega
    · rw [update_of_ne hi] at ht hbn
      exact ho.holes i ht bn hbn
  · intro i ht
    rw [hm.dinode] at ht ⊢
    by_cases hi : i = ROOTINO
    · subst hi
      rw [update_self]
      simp only [rootSize]
      rw [h1, h2, h4]
      omega
    · rw [update_of_ne hi] at ht ⊢
      exact ho.sizes i ht

lemma Made.hole (h : Listed σ n p) (hm : Made σ n σ' s) (hn : (n + 2) % 64 = 0) :
    (s.dinode ROOTINO).type ≠ .free ∧
      (n + 2) / 64 * BSIZE < (s.dinode ROOTINO).size ∧ blockOf s ROOTINO ((n + 2) / 64) = 0 := by
  have h1 : DIRENT = 16 := rfl
  have h2 : BSIZE = 1024 := rfl
  have hin : ROOTINO < p.freeinode := by
    rw [h.freeinode]
    exact Nat.lt_add_left n (by decide)
  refine ⟨?_, ?_, ?_⟩
  · rw [hm.dinode, update_self]
    exact (h.stands.shows.types ROOTINO).mpr ⟨le_refl _, hin⟩
  · rw [hm.dinode, update_self]
    simp only [rootSize]
    rw [h1, h2]
    omega
  · unfold blockOf
    rw [hm.refs h]
    by_contra hne
    have := (h.rooted.mapped _).mp hne
    rw [h.root, h1, h2] at this
    omega

end

lemma wp_main (args : List Arg) (h : args.length + 2 ≤ NINODES) :
    Wp (main args) (fun _ σ' => ∃ σ p s, Listed σ args.length p ∧ Made σ args.length σ' s)
      (fun _ => ¬ ((∀ arg ∈ args, arg.Empty) ∧ DIRENT * (args.length + 2) ≤ BSIZE)) fresh := by
  rw [main_eq]
  refine (wp_makeFiles args h).bind ?_
  rintro _ σ ⟨p, hl⟩
  refine (wp_finish hl).imp ?_
  rintro _ σ' ⟨s, hm⟩
  exact ⟨σ, p, s, hl, hm⟩

/-- The image is as it should be unless there are too many files for the inode table, or the
entries fill the last block of the root directory. -/
theorem image_is_well_made_iff (args : List Arg) (σ : Mk)
    (hrun : (main args).run fresh = .ok ((), σ)) :
    WellMade σ ↔ args.length + 2 ≤ NINODES ∧ (args.length + 2) % 64 ≠ 0 := by
  have hcount := (wp_main_count args).of_ok hrun
  constructor
  · rintro ⟨s, hinit, hino, _, _, hholes, _⟩
    have hn : args.length + 2 ≤ NINODES := by
      by_contra hlt
      have := hino NINODES (by decide) (by omega)
      exact absurd this (by decide)
    refine ⟨hn, fun hmod => ?_⟩
    obtain ⟨σ₀, p, s', hl, hm⟩ := (wp_main args hn).of_ok hrun
    have hs : s = s' := by
      have := hinit.symm.trans hm.init
      cases this
      rfl
    subst hs
    obtain ⟨ht, hlt, h0⟩ := hm.hole hl hmod
    exact hholes ROOTINO ht _ hlt h0
  · rintro ⟨hn, hmod⟩
    obtain ⟨σ₀, p, s, hl, hm⟩ := (wp_main args hn).of_ok hrun
    have ho := hm.owned hl hmod
    have hsize : NINODES = rootSb.ninodes := rfl
    refine ⟨s, hm.init, ?_, ho.exact.range, ho.exact.inj, ho.holes, ?_⟩
    · intro i _ hi
      omega
    · intro i ht off n
      have ho' := ho
      rw [hm.tables] at ho' ⊢
      obtain ⟨r, t, hr, h1, _, h3, _⟩ :=
        (wp_readInode (E := fun _ => False) ho' ht off n).exists_ok
      exact ⟨r, t, hr, h1, h3⟩

theorem image_is_well_made_iff_none : ∃ σ, (main []).run fresh = .ok ((), σ) ∧ WellMade σ := by
  have hno : ¬ ¬ ((∀ arg ∈ ([] : List Arg), arg.Empty) ∧
      DIRENT * (([] : List Arg).length + 2) ≤ BSIZE) :=
    not_not.mpr ⟨fun _ h => absurd h (List.not_mem_nil), by decide⟩
  obtain ⟨_, σ, hrun, _⟩ := ((wp_main [] (by decide)).errors fun _ h => hno h).exists_ok
  exact ⟨σ, hrun, (image_is_well_made_iff [] σ hrun).mpr ⟨by decide, by decide⟩⟩

/-- 62 empty files fill the block of the root directory, and its new size has a hole. -/
theorem full_root_block_leaves_a_hole : ∃ (args : List Arg) (σ : Mk),
    args.length = 62 ∧ (main args).run fresh = .ok ((), σ) ∧ ¬ WellMade σ := by
  have hempty : ∀ arg ∈ List.replicate 62 (⟨[97], some []⟩ : Arg), arg.Empty := by
    intro arg ha
    rw [List.eq_of_mem_replicate ha]
    exact ⟨by decide, rfl⟩
  have hlen : (List.replicate 62 (⟨[97], some []⟩ : Arg)).length = 62 := List.length_replicate
  have hno : ¬ ¬ ((∀ arg ∈ List.replicate 62 (⟨[97], some []⟩ : Arg), arg.Empty) ∧
      DIRENT * ((List.replicate 62 (⟨[97], some []⟩ : Arg)).length + 2) ≤ BSIZE) :=
    not_not.mpr ⟨hempty, by rw [hlen]; decide⟩
  obtain ⟨_, σ, hrun, σ₀, p, s, hl, hm⟩ :=
    ((wp_main _ (by rw [hlen]; decide)).errors fun _ h => hno h).exists_ok
  refine ⟨_, σ, hlen, hrun, ?_⟩
  rintro ⟨s', hinit, _, _, _, hholes, _⟩
  have hs : s' = s := by
    have := hinit.symm.trans hm.init
    cases this
    rfl
  subst hs
  rw [hlen] at hl hm
  obtain ⟨ht, hlt, h0⟩ := hm.hole hl (by decide)
  exact hholes ROOTINO ht _ hlt h0

end xv6.mkfs
