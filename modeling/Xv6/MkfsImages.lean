-- The images that `mkfs` makes. A run of `ialloc` and `iappend` follows a plan
-- of what each file holds, and the kernel reads from the finished image what
-- the plan says.
import Xv6.MkfsLaws

open bytes ownership wp Function List

namespace xv6.mkfs

open fs

variable {σ σ' : Mk} {inum : Nat} {din din' : Dinode} {c : List UInt8}

/-! ## The plan of an image -/

/-- What an image is to hold: the contents of the files, and the two counters. -/
structure Plan where
  contents : Nat → List UInt8
  freeinode : Nat
  freeblock : Nat

/-- The calls that make files. -/
inductive Op where
  | ialloc (type : FileType)
  | iappend (inum : Nat) (p : List UInt8)

def Plan.start : Plan := { contents := fun _ => [], freeinode := 1, freeblock := nmeta }

/-- A new file is empty, and bytes are added at the end of a file. -/
def Plan.step (p : Plan) : Op → Plan
  | .ialloc _ => { p with contents := update p.contents p.freeinode [],
                          freeinode := p.freeinode + 1 }
  | .iappend inum bs =>
    { p with contents := update p.contents inum (p.contents inum ++ bs),
             freeblock := p.freeblock + blocksFor ((p.contents inum).length + bs.length) -
              blocksFor (p.contents inum).length }

/-- The file system of the image is the plan's. -/
structure Shows (s : Fs) (p : Plan) : Prop where
  owned : Owned rootSb s
  types : ∀ i, (s.dinode i).type ≠ .free ↔ 1 ≤ i ∧ i < p.freeinode
  sizes : ∀ i, 1 ≤ i → i < p.freeinode → (s.dinode i).size = (p.contents i).length
  files : ∀ i, 1 ≤ i → i < p.freeinode → Holds s i (p.contents i)

/-- The image that is not finished stands as planned. -/
structure Stands (σ : Mk) (p : Plan) : Prop where
  len : σ.len = FSSIZE
  super : σ.img 1 = sb.put fun _ => 0
  freeinode : σ.freeinode = p.freeinode
  freeblock : σ.freeblock = p.freeblock
  last : p.freeinode ≤ NINODES
  low : nmeta ≤ σ.freeblock
  room : σ.freeblock ≤ FSSIZE
  zero : ∀ b, σ.freeblock ≤ b → σ.img b = fun _ => 0
  shows : Shows (view σ) p

variable {p : Plan} {s t : Fs}

lemma refAt_of_same (h : Owned rootSb s)
    (hd : ∀ i, (t.dinode i).type = (s.dinode i).type ∧ (t.dinode i).addrs = (s.dinode i).addrs)
    (hdata : ∀ b, nmeta ≤ b → t.data b = s.data b) : refAt t = refAt s := by
  funext q
  have hplace : (t.dinode q.1).place t.data q.2 = (s.dinode q.1).place t.data q.2 := by
    unfold Dinode.place
    rw [(hd q.1).1, (hd q.1).2]
  unfold refAt
  rw [hplace]
  apply place_congr
  intro ht h0
  apply hdata
  have hr := h.exact.range (q.1, NDIRECT)
  unfold refAt at hr
  rw [place_of_le ht _ (le_refl _)] at hr
  exact (hr h0).1

lemma Owned.of_same (h : Owned rootSb s) (hbits : ∀ b < rootSb.size, t.bitmap b = s.bitmap b)
    (hd : t.dinode = s.dinode) (hdata : ∀ b, nmeta ≤ b → t.data b = s.data b) :
    Owned rootSb t := by
  have hrefs := refAt_of_same h (fun i => by rw [hd]; exact ⟨rfl, rfl⟩) hdata
  refine ⟨h.bits, ⟨h.exact.low_pos, ?_, ?_, ?_⟩, ?_, ?_⟩
  · rw [hrefs]
    exact h.exact.range
  · rw [hrefs]
    exact h.exact.inj
  · intro b hb
    rw [hbits b hb, hrefs]
    exact h.exact.bits b hb
  · unfold blockOf
    rw [hrefs, hd]
    exact h.holes
  · rw [hd]
    exact h.sizes

variable {E : Exit → Prop} {i : Nat}

lemma Holds.of_same (h : Owned rootSb s) (hc : Holds s i c) (hd : t.dinode = s.dinode)
    (hdata : ∀ b, nmeta ≤ b → t.data b = s.data b) : Holds t i c := by
  have hrefs := refAt_of_same h (fun i => by rw [hd]; exact ⟨rfl, rfl⟩) hdata
  refine hc.congr (fun pos => congrFun hrefs _) ?_
  intro bn h0
  exact hdata _ (h.exact.range _ h0).1

lemma Shows.of_same (h : Shows s p) (hbits : ∀ b < rootSb.size, t.bitmap b = s.bitmap b)
    (hd : t.dinode = s.dinode) (hdata : ∀ b, nmeta ≤ b → t.data b = s.data b) : Shows t p := by
  refine ⟨mkfs.Owned.of_same h.owned hbits hd hdata, ?_, ?_, ?_⟩
  · rw [hd]
    exact h.types
  · rw [hd]
    exact h.sizes
  · intro i h1 h2
    exact (h.files i h1 h2).of_same h.owned hd hdata

lemma Stands.inode_in (h : Stands σ p) {inum : Nat} (hi : inum < NINODES) :
    IBLOCK inum < σ.len := by
  have h1 := (IBLOCK_range hi).2
  have h2 : sb.bmapstart = 45 := rfl
  have h3 : FSSIZE = 2000 := rfl
  rw [h.len]
  omega

/-- The block of inode `inum` with the inode in it. -/
def inodeBlock (inum : Nat) (d : Dinode) (σ : Mk) : Bytes :=
  putDinode (σ.img (IBLOCK inum)) (inum % IPB * DINODE) d

lemma view_winode {inum : Nat} (hi : inum < NINODES) {d : Dinode} (hd : Storable d) (σ : Mk) :
    (view (written (IBLOCK inum) (inodeBlock inum d σ) σ)).dinode =
      update (dinodes σ.img) inum d := dinodes_putDinode σ.img hi hd

lemma IBLOCK_meta {inum : Nat} (hi : inum < NINODES) : 1 < IBLOCK inum ∧ IBLOCK inum < nmeta := by
  obtain ⟨h1, h2⟩ := IBLOCK_range hi
  have h3 : sb.inodestart = 32 := rfl
  have h4 : sb.bmapstart = 45 := rfl
  have h5 : nmeta = 46 := rfl
  omega

lemma wp_winode {Q : Unit → Mk → Prop} {inum : Nat} (d : Dinode)
    (hlt : IBLOCK inum < σ.len)
    (hQ : Q () (written (IBLOCK inum) (inodeBlock inum d σ) σ)) :
    Wp (winode inum d) Q E σ := by
  unfold winode
  rw [wp_bind]
  apply wp_rsect
  · intro _
    rw [wp_wsect]
    exact hQ
  · intro hout
    omega

lemma Stands.wrote {q : Plan} {inum : Nat} (hi : inum < NINODES) (v : Bytes)
    (hlen : σ.len = FSSIZE) (hsuper : σ.img 1 = sb.put fun _ => 0)
    (hfree : σ.freeinode = q.freeinode) (hblock : σ.freeblock = q.freeblock)
    (hlast : q.freeinode ≤ NINODES) (hlow : nmeta ≤ σ.freeblock) (hroom : σ.freeblock ≤ FSSIZE)
    (hzero : ∀ b, σ.freeblock ≤ b → σ.img b = fun _ => 0)
    (hshows : Shows (view (written (IBLOCK inum) v σ)) q) :
    Stands (written (IBLOCK inum) v σ) q := by
  obtain ⟨h1, h2⟩ := IBLOCK_meta hi
  have h3 : nmeta = 46 := rfl
  have h4 : FSSIZE = 2000 := rfl
  refine ⟨?_, ?_, hfree, hblock, hlast, hlow, hroom, ?_, hshows⟩
  · simp only [written]
    omega
  · simp only [written]
    rw [update_of_ne (by omega), hsuper]
  · intro b hb
    have hb' : σ.freeblock ≤ b := hb
    simp only [written]
    rw [update_of_ne (by omega), hzero b hb']

lemma wp_ialloc (h : Stands σ p) (hlt : p.freeinode < NINODES)
    (hfirst : 1 ≤ p.freeinode) {type : FileType} (ht : type ≠ .free) :
    Wp (ialloc type) (fun r σ' => r = p.freeinode ∧ Stands σ' (p.step (.ialloc type))) E σ := by
  have hi : σ.freeinode < NINODES := by
    rw [h.freeinode]
    exact hlt
  have hd : Storable { type, major := 0, minor := 0, nlink := 1, size := 0, addrs := fun _ => 0 } :=
    ⟨rfl, rfl, rfl, by simp, fun _ => by simp, fun _ _ => rfl⟩
  unfold ialloc
  rw [wp_get_bind, wp_set_bind, wp_bind]
  apply wp_winode
  · exact h.inode_in hi
  · rw [wp_pure]
    refine ⟨h.freeinode, ?_⟩
    refine Stands.wrote hi _ h.len h.super ?_ h.freeblock (Nat.succ_le_of_lt hlt) h.low h.room
      h.zero ?_
    · simp [Plan.step, h.freeinode]
    · have hdin := view_winode hi hd { σ with freeinode := σ.freeinode + 1 }
      generalize hview :
        view (written (IBLOCK σ.freeinode) _ { σ with freeinode := σ.freeinode + 1 }) = v at hdin ⊢
      have hdata : ∀ b, nmeta ≤ b → v.data b = (view σ).data b := by
        intro b hb
        have := (IBLOCK_meta hi).2
        rw [← hview]
        exact update_of_ne (by omega) ..
      have hbits : v.bitmap = (view σ).bitmap := by
        rw [← hview]
        rfl
      have hfree : ((view σ).dinode σ.freeinode).type = .free := by
        by_contra hne
        have := (h.shows.types _).mp hne
        rw [h.freeinode] at this
        omega
      -- the new inode has no blocks, and the free one had none
      have hrefs : refAt v = refAt (view σ) := by
        funext q
        unfold refAt
        rw [hdin]
        by_cases hq : q.1 = σ.freeinode
        · rw [hq, update_self, place_of_free hfree]
          simp [Dinode.place]
        · rw [update_of_ne hq]
          apply place_congr
          intro hti h0
          apply hdata
          have hr := h.shows.owned.exact.range (q.1, NDIRECT)
          unfold refAt at hr
          rw [place_of_le (by exact hti) _ (le_refl _)] at hr
          exact (hr h0).1
      refine ⟨⟨h.shows.owned.bits, ?_, ?_, ?_⟩, ?_, ?_, ?_⟩
      · rw [hrefs, hbits]
        exact h.shows.owned.exact
      · intro i hti bn hbn
        rw [hdin] at hti hbn
        unfold blockOf
        rw [hrefs]
        by_cases hii : i = σ.freeinode
        · subst hii
          rw [update_self] at hbn
          exact absurd hbn (Nat.not_lt_zero _)
        · rw [update_of_ne hii] at hti hbn
          exact h.shows.owned.holes i hti bn hbn
      · intro i hti
        rw [hdin] at hti ⊢
        by_cases hii : i = σ.freeinode
        · subst hii
          rw [update_self]
          exact Nat.zero_le _
        · rw [update_of_ne hii] at hti ⊢
          exact h.shows.owned.sizes i hti
      · intro i
        rw [hdin]
        simp only [Plan.step]
        by_cases hii : i = σ.freeinode
        · subst hii
          rw [update_self, h.freeinode]
          exact iff_of_true ht ⟨hfirst, by omega⟩
        · rw [update_of_ne hii]
          refine (h.shows.types i).trans ?_
          rw [h.freeinode] at hii
          omega
      · intro i h1 h2
        rw [hdin]
        simp only [Plan.step] at h2 ⊢
        by_cases hii : i = p.freeinode
        · subst hii
          rw [← h.freeinode, update_self, update_self]
          rfl
        · rw [update_of_ne hii, update_of_ne (by rw [h.freeinode]; exact hii)]
          exact h.shows.sizes i h1 (by omega)
      · intro i h1 h2
        simp only [Plan.step] at h2 ⊢
        by_cases hii : i = p.freeinode
        · subst hii
          have hzero : ∀ pos, refAt v (p.freeinode, pos) = 0 := by
            intro pos
            rw [hrefs, ← h.freeinode]
            exact place_of_free hfree _ _
          rw [update_self]
          refine ⟨Nat.zero_le _, ?_, ?_, rfl⟩
          · intro bn
            unfold blockOf
            rw [hzero]
            simp
          · rw [hzero]
            simp
        · rw [update_of_ne hii]
          refine (h.shows.files i h1 (by omega)).congr (fun pos => congrFun hrefs _) ?_
          intro bn h0
          exact hdata _ (h.shows.owned.exact.range _ h0).1

lemma Stands.sound (h : Stands σ p) {inum : Nat} (h1 : 1 ≤ inum) (h2 : inum < p.freeinode) :
    Sound inum σ (dinodes σ.img inum) ∧
      Holds (stored inum (dinodes σ.img inum) σ) inum (p.contents inum) := by
  have hflush : stored inum (dinodes σ.img inum) σ = loaded inum (dinodes σ.img inum) σ := by
    apply flush_of_synced
    rw [loaded_slot]
    rfl
  have hi : inum < NINODES := lt_of_lt_of_le h2 h.last
  refine ⟨⟨h.len, h.low, h.room, h.zero, (h.shows.types inum).mpr ⟨h1, h2⟩, ?_, ?_⟩, ?_⟩
  · unfold dinodes
    rw [if_pos hi]
    exact storable_getDinode _ _
  · rw [hflush]
    have ho := h.shows.owned
    exact { ho with }
  · rw [hflush]
    have hc := h.shows.files inum h1 h2
    exact { hc with }

lemma Grew.stands {d : List UInt8} (h : Stands σ p) (h1 : 1 ≤ inum) (h2 : inum < p.freeinode)
    (hg : Grew inum σ (dinodes σ.img inum) (p.contents inum) σ' din' (p.contents inum ++ d)) :
    Stands (written (IBLOCK inum)
      (inodeBlock inum { din' with size := (p.contents inum ++ d).length } σ') σ')
      (p.step (.iappend inum d)) := by
  have hi : inum < NINODES := lt_of_lt_of_le h2 h.last
  have hmax := hg.holds.max
  have hmeta : nmeta = 46 := rfl
  have hcount := hg.count
  have hstore : Storable { din' with size := (p.contents inum ++ d).length } := by
    have hs := hg.sound.storable
    refine ⟨hs.major, hs.minor, hs.nlink, ?_, hs.addrs, hs.outside⟩
    have hb : MAXFILE * BSIZE < 256 ^ 4 := by decide
    exact lt_of_le_of_lt hmax hb
  refine Stands.wrote hi _ hg.sound.len ?_ ?_ ?_ h.last hg.sound.low hg.sound.room hg.sound.zero ?_
  · rw [hg.low 1 (by decide), h.super]
  · rw [hg.freeinode, h.freeinode]
    rfl
  · rw [length_append] at hcount
    simp only [Plan.step]
    rw [← h.freeblock]
    omega
  · have hdin := view_winode hi hstore σ'
    rw [dinodes_congr hg.low] at hdin
    have hnew : Owned rootSb (resize 0 (p.contents inum ++ d).length (loaded inum din' σ')) := by
      apply owned_resize hg.sound.owned hmax
      intro bn hbn
      rw [loaded_slot]
      exact (hg.holds.mapped bn).mpr hbn
    have hrefs := refAt_resize 0 (p.contents inum ++ d).length (loaded inum din' σ')
    have hrdin := resize_dinode 0 (p.contents inum ++ d).length (loaded inum din' σ')
    rw [loaded_slot] at hrdin
    have hsame : (loaded inum din' σ').dinode = dinodes σ.img := dinodes_congr hg.low
    rw [hsame] at hrdin
    have hd := hdin.trans hrdin.symm
    have hdata : ∀ b, nmeta ≤ b →
        (view (written (IBLOCK inum)
          (inodeBlock inum { din' with size := (p.contents inum ++ d).length } σ') σ')).data b =
            (resize 0 (p.contents inum ++ d).length (loaded inum din' σ')).data b := by
      intro b hb
      have := (IBLOCK_meta hi).2
      exact update_of_ne (by omega) ..
    have hholds : ∀ i e, Holds (stored inum din' σ') i e →
        Holds (resize 0 (p.contents inum ++ d).length (loaded inum din' σ')) i e :=
      fun i e he => he.congr (fun pos => congrFun hrefs _) fun _ _ => rfl
    refine Shows.of_same (s := resize 0 (p.contents inum ++ d).length (loaded inum din' σ')) ?_
      (fun _ _ => rfl) hd hdata
    refine ⟨hnew, ?_, ?_, ?_⟩
    · intro i
      rw [hrdin]
      simp only [Plan.step]
      by_cases hii : i = inum
      · subst hii
        rw [update_self]
        exact iff_of_true hg.sound.typed ⟨h1, h2⟩
      · rw [update_of_ne hii]
        exact h.shows.types i
    · intro i hi1 hi2
      rw [hrdin]
      simp only [Plan.step] at hi2 ⊢
      by_cases hii : i = inum
      · subst hii
        rw [update_self, update_self]
      · rw [update_of_ne hii, update_of_ne hii]
        exact h.shows.sizes i hi1 hi2
    · intro i hi1 hi2
      simp only [Plan.step] at hi2 ⊢
      by_cases hii : i = inum
      · subst hii
        rw [update_self]
        exact hholds _ _ hg.holds
      · rw [update_of_ne hii]
        apply hholds
        have hold := h.shows.files i hi1 hi2
        refine Holds.beside ?_ hii hg.beside
        refine hold.congr (fun pos => ?_) fun _ _ => rfl
        unfold refAt stored
        rw [flush_dinode_ne (by rw [loaded_slot]; exact hii)]
        rfl

lemma wp_iappend (h : Stands σ p) {inum : Nat} (h1 : 1 ≤ inum) (h2 : inum < p.freeinode)
    (d : List UInt8) :
    Wp (iappend inum d) (fun _ σ' => Stands σ' (p.step (.iappend inum d)))
      (fun _ => ¬ Fits σ (p.contents inum).length d.length) σ := by
  have hi : inum < NINODES := lt_of_lt_of_le h2 h.last
  obtain ⟨hs, hc⟩ := h.sound h1 h2
  have hdin : getDinode (σ.img (IBLOCK inum)) (inum % IPB * DINODE) = dinodes σ.img inum := by
    unfold dinodes
    rw [if_pos hi]
    rfl
  have hsize : (dinodes σ.img inum).size = (p.contents inum).length := h.shows.sizes inum h1 h2
  unfold iappend rinode
  rw [wp_bind, wp_bind]
  apply wp_rsect
  · intro _
    rw [wp_pure, hdin, hsize]
    refine (wp_iappendLoop hs hc d.length d (le_refl _)).bind ?_
    rintro ⟨din', off⟩ σ' ⟨hoff, hg⟩
    have hoff' : off = (p.contents inum ++ d).length := by
      rw [length_append]
      exact hoff
    subst hoff'
    apply wp_winode
    · rw [hg.sound.len, ← h.len]
      exact h.inode_in hi
    · exact hg.stands h h1 h2
  · intro hout
    have := h.inode_in hi
    omega

/-! ## The empty image -/

lemma wp_zeroBlocks (n : Nat) :
    Wp (zeroBlocks n) (fun _ σ' => σ' = { fresh with len := n }) E fresh := by
  induction n with
  | zero =>
    simp only [zeroBlocks, wp_pure]
    rfl
  | succ n ih =>
    refine ih.bind ?_
    rintro _ _ rfl
    rw [wp_wsect]
    have hzero : update fresh.img n (fun _ => 0) = fresh.img := update_zero rfl
    simp only [hzero, Mk.mk.injEq, true_and, and_true]
    omega

/-- The image with the super block and nothing else. -/
def formatted : Mk :=
  { img := update (fun _ _ => 0) 1 (sb.put fun _ => 0), len := FSSIZE, freeinode := 1,
    freeblock := nmeta }

lemma wp_format : Wp format (fun _ σ' => σ' = formatted) E fresh := by
  refine (wp_zeroBlocks FSSIZE).bind ?_
  rintro _ _ rfl
  rw [wp_wsect]
  rfl

lemma getDinode_zero (a : Nat) : getDinode (fun _ => 0) a = freeDinode := by
  have hget : ∀ k x, getLE k (fun _ => 0) x = 0 := by
    intro k x
    rw [getLE_of_bytes (v := 0) (fun i _ => by simp), Nat.zero_mod]
  unfold getDinode
  simp only [hget, ite_self]
  rfl

lemma dinodes_formatted : dinodes formatted.img = fun _ => freeDinode := by
  funext i
  unfold dinodes
  split
  · rename_i hi
    have hb : i / IPB + sb.inodestart ≠ 1 := by
      have : 1 < i / IPB + sb.inodestart := (IBLOCK_meta hi).1
      omega
    unfold inodeAt formatted
    exact getDinode_zero _
  · rfl

lemma stands_formatted : Stands formatted Plan.start := by
  have hdin : (view formatted).dinode = fun _ => freeDinode := dinodes_formatted
  have hrefs : ∀ q, refAt (view formatted) q = 0 := by
    intro q
    unfold refAt
    rw [hdin]
    exact place_of_free rfl _ _
  refine ⟨rfl, rfl, rfl, rfl, by decide, le_refl _, by decide, ?_,
    ⟨by decide, ⟨by decide, ?_, ?_, ?_⟩, ?_, ?_⟩, ?_, ?_, ?_⟩
  · intro b hb
    have h1 : 46 ≤ b := hb
    have h2 : b ≠ 1 := by omega
    unfold formatted
    simp only [update_of_ne h2]
  · intro q hq
    exact absurd (hrefs q) hq
  · intro q r hq
    exact absurd (hrefs q) hq
  · intro b _
    have hbit : (view formatted).bitmap b = decide (b < nmeta) := rfl
    rw [hbit, decide_eq_true_eq, nmeta_eq]
    constructor
    · exact .inl
    · rintro (hb | ⟨q, hq⟩)
      · exact hb
      · rw [hrefs] at hq
        rw [← hq]
        decide
  · intro i hi
    rw [hdin] at hi
    exact absurd rfl hi
  · intro i hi
    rw [hdin] at hi
    exact absurd rfl hi
  · intro i
    rw [hdin]
    refine iff_of_false (fun hi => hi rfl) ?_
    simp only [Plan.start]
    omega
  · intro i h1 h2
    simp only [Plan.start] at h2
    omega
  · intro i h1 h2
    simp only [Plan.start] at h2
    omega

/-! ## The finished image -/

lemma readsb_of_super {img : Nat → Bytes} (h : img 1 = sb.put fun _ => 0) : readsb img = sb := by
  unfold readsb
  rw [h]
  rfl

/-- What the kernel finds on the finished image. -/
def finished (σ : Mk) : Fs :=
  blank (bitAt sb.bmapstart (update σ.img sb.bmapstart (marks σ.freeblock)))
    (dinodes σ.img) (update σ.img sb.bmapstart (marks σ.freeblock))

lemma wp_balloc (hsuper : σ.img 1 = sb.put fun _ => 0)
    (hroom : σ.freeblock ≤ FSSIZE) :
    Wp (mkfs.balloc σ.freeblock) (fun _ σ' => fsinit σ'.img = .ok (rootSb, finished σ) ∧
      σ'.freeinode = σ.freeinode ∧ σ'.freeblock = σ.freeblock) E σ := by
  have h1 : FSSIZE = 2000 := rfl
  have h2 : BSIZE * 8 = 8192 := rfl
  unfold mkfs.balloc
  rw [if_pos (by omega), wp_wsect]
  refine ⟨?_, rfl, rfl⟩
  have hsame : update σ.img sb.bmapstart (marks σ.freeblock) 1 = sb.put fun _ => 0 := by
    rw [update_of_ne (by decide), hsuper]
  have hdin : (fun i => if i < NINODES then
      inodeAt sb.inodestart (update σ.img sb.bmapstart (marks σ.freeblock)) i else
        freeDinode) = dinodes σ.img := by
    funext i
    unfold dinodes
    split
    · rename_i hi
      have hb : i / IPB + sb.inodestart < sb.bmapstart := (IBLOCK_range hi).2
      unfold inodeAt
      rw [update_of_ne (by omega)]
    · rfl
  unfold fsinit
  rw [readsb_of_super hsame]
  simp only [finished]
  rw [← hdin]
  rfl

lemma finished_bitmap (σ : Mk) {b : Nat} (hb : b < rootSb.size) :
    (finished σ).bitmap b = (view σ).bitmap b := by
  have h1 : rootSb.size = 2000 := rfl
  have h2 : BSIZE * 8 = 8192 := rfl
  exact bitAt_marks _ _ (by omega) _ (update_self ..)

lemma finished_data (σ : Mk) {b : Nat} (hb : nmeta ≤ b) :
    (finished σ).data b = (view σ).data b := by
  have h1 : sb.bmapstart = 45 := rfl
  have h2 : nmeta = 46 := rfl
  exact update_of_ne (by omega) ..

lemma Shows.finished (h : Shows (view σ) p) : Shows (finished σ) p :=
  h.of_same (fun _ hb => finished_bitmap σ hb) rfl (fun _ hb => finished_data σ hb)

/-! ## The kernel reads -/

/-- The kernel reads a part of an inode. -/
def readInode (inum : Nat) (off n : Nat) : fs.M (Int × List UInt8) := do
  let ip ← iget inum
  ilock ip
  readi rootSb ip (fun _ => true) off n

lemma bytesOf_drop_take (s : Fs) (i off m : Nat) {n : Nat} (h : off + m ≤ n) :
    ((bytesOf s i 0 n).drop off).take m = bytesOf s i off m := by
  obtain ⟨k, rfl⟩ := Nat.exists_eq_add_of_le h
  have hlen : ∀ o l, (bytesOf s i o l).length = l := by
    intro o l
    simp [bytesOf]
  rw [Nat.add_assoc, bytesOf_add, Nat.zero_add, drop_left' (hlen 0 off), bytesOf_add,
    take_left' (hlen off m)]

lemma wp_readInode {E : Stop → Prop} {bits : Nat → Bool} {din : Nat → Dinode}
    {data : Nat → Bytes} (h : Owned rootSb (blank bits din data))
    (ht : (din i).type ≠ .free) (off n : Nat) :
    Wp (readInode i off n) (fun r t => t.bitmap = bits ∧ t.dinode = din ∧ t.data = data ∧
      (off ≤ (din i).size → off + n < 2 ^ 32 → r = (((min n ((din i).size - off) : Nat) : Int),
        bytesOf (blank bits din data) i off (min n ((din i).size - off))))) E
      (blank bits din data) := by
  have hnone : ((List.range NINODE).find? fun k => 0 < ((blank bits din data).itable k).ref ∧
      ((blank bits din data).itable k).inum = i) = none := by
    simp [blank]
  have hsome : ((List.range NINODE).find? fun k => ((blank bits din data).itable k).ref = 0) =
      some 0 := rfl
  unfold readInode iget
  rw [wp_bind, wp_get_bind, hnone]
  simp only [hsome]
  rw [wp_modifyInode_bind, wp_pure]
  unfold ilock
  rw [wp_bind, wp_get_bind]
  simp only [setSlot_self]
  rw [if_neg (by decide), if_pos trivial, wp_modifyInode_bind, setSlot_self, setSlot_dinode]
  refine wp_ite (fun hfree => absurd hfree ht) (fun _ => ?_)
  rw [wp_pure]
  generalize hs : setSlot 0 _ (setSlot 0 _ (blank bits din data)) = s
  have hslot : s.itable 0 = { toDinode := din i, inum := i, ref := 1, valid := true } := by
    rw [← hs]
    simp [blank]
  have hdin : s.dinode = din := by
    rw [← hs]
    rfl
  have hbits : s.bitmap = bits := by
    rw [← hs]
    rfl
  have hdata : s.data = data := by
    rw [← hs]
    rfl
  have howned : Owned rootSb s := by
    apply mkfs.Owned.of_same h
    · intro b _
      rw [hbits]
      rfl
    · rw [hdin]
      rfl
    · intro b _
      rw [hdata]
      rfl
  have hsync : Synced s 0 := by
    unfold Synced
    rw [hslot, hdin]
  have hbytes : bytesOf s i = bytesOf (blank bits din data) i := by
    rw [← hs]
    rfl
  refine (wp_readi howned hsync (by rw [hslot]; exact ht) _ off n).imp ?_
  rintro r t ⟨rfl, hr⟩
  rw [hslot] at hr
  refine ⟨hbits, hdin, hdata, fun hoff hn => ?_⟩
  rw [hr (fun _ => rfl) hoff hn, hbytes]

lemma Shows.wp_readInode {E : Stop → Prop} {bits : Nat → Bool} {din : Nat → Dinode}
    {data : Nat → Bytes} (h : Shows (blank bits din data) p) (h1 : 1 ≤ i)
    (h2 : i < p.freeinode) {off : Nat} (n : Nat) (hoff : off ≤ (p.contents i).length)
    (hn : off + n < 2 ^ 32) :
    Wp (readInode i off n) (fun r _ => r = (((min n ((p.contents i).length - off) : Nat) : Int),
      ((p.contents i).drop off).take n)) E (blank bits din data) := by
  have hsize : (din i).size = (p.contents i).length := h.sizes i h1 h2
  refine (mkfs.wp_readInode h.owned ((h.types i).mpr ⟨h1, h2⟩) off n).imp ?_
  rintro r t ⟨_, _, _, hr⟩
  rw [hsize] at hr
  rw [hr hoff hn]
  congr 1
  rw [← bytesOf_drop_take _ i off _ (show _ ≤ (p.contents i).length by omega),
    (h.files i h1 h2).bytes]
  by_cases hle : n ≤ (p.contents i).length - off
  · rw [Nat.min_eq_left hle]
  · rw [Nat.min_eq_right (by omega), take_of_length_le (by simp), take_of_length_le]
    rw [length_drop]
    omega

/-! ## Runs of `ialloc` and `iappend` -/

/-- The calls one after the other. -/
def build : List Op → M Unit
  | [] => return ()
  | .ialloc type :: ops => do
    let _ ← ialloc type
    build ops
  | .iappend inum bs :: ops => do
    iappend inum bs
    build ops

/-- The call keeps `freeinode` and `freeblock` in the layout and the file in its size, and
appends to a file that is there. -/
def Plan.Keeps (p : Plan) : Op → Prop
  | .ialloc type => type ≠ .free ∧ p.freeinode < NINODES
  | .iappend inum bs => 1 ≤ inum ∧ inum < p.freeinode ∧
      (p.contents inum).length + bs.length ≤ MAXFILE * BSIZE ∧
      (p.step (.iappend inum bs)).freeblock ≤ FSSIZE

def Plan.KeepsAll : Plan → List Op → Prop
  | _, [] => True
  | p, op :: ops => p.Keeps op ∧ (p.step op).KeepsAll ops

def Plan.after (p : Plan) (ops : List Op) : Plan := ops.foldl Plan.step p

/-- The bytes that the calls append to file `i`, in their order. -/
def chunks (i : Nat) : List Op → List UInt8
  | [] => []
  | .ialloc _ :: ops => chunks i ops
  | .iappend inum bs :: ops => (if inum = i then bs else []) ++ chunks i ops

lemma contents_after {p : Plan} {ops : List Op} (hk : p.KeepsAll ops)
    (hnew : ∀ i, p.freeinode ≤ i → p.contents i = []) (i : Nat) :
    (p.after ops).contents i = p.contents i ++ chunks i ops := by
  induction ops generalizing p with
  | nil => simp [Plan.after, chunks]
  | cons op ops ih =>
    obtain ⟨hop, hops⟩ := hk
    have hnext := ih hops
    cases op with
    | ialloc type =>
      have hsame : (p.step (.ialloc type)).contents = p.contents := by
        simp only [Plan.step]
        rw [← hnew p.freeinode (le_refl _), update_eq_self]
      rw [hsame] at hnext
      refine hnext fun j hj => ?_
      simp only [Plan.step] at hj
      exact hnew j (by omega)
    | iappend inum bs =>
      have hin := hop.2.1
      simp only [Plan.after, foldl_cons, chunks] at hnext ⊢
      rw [hnext ?_]
      · simp only [Plan.step]
        by_cases hi : inum = i
        · subst hi
          simp
        · rw [update_of_ne (Ne.symm hi), if_neg hi, nil_append]
      · intro j hj
        simp only [Plan.step] at hj ⊢
        rw [update_of_ne (by omega)]
        exact hnew j hj

lemma wp_build (h : Stands σ p) (hfirst : 1 ≤ p.freeinode) (ops : List Op)
    (hk : p.KeepsAll ops) :
    Wp (build ops) (fun _ σ' => Stands σ' (p.after ops)) (fun _ => False) σ := by
  induction ops generalizing σ p with
  | nil =>
    simp only [build, wp_pure]
    exact h
  | cons op ops ih =>
    obtain ⟨hop, hops⟩ := hk
    cases op with
    | ialloc type =>
      refine (wp_ialloc h hop.2 hfirst hop.1).bind ?_
      rintro _ σ' ⟨_, hs⟩
      exact ih hs (Nat.le_succ_of_le hfirst) hops
    | iappend inum bs =>
      obtain ⟨h1, h2, h3, h4⟩ := hop
      unfold build
      have hfits : Fits σ (p.contents inum).length bs.length := by
        refine ⟨h3, ?_⟩
        simp only [Plan.step] at h4
        rw [h.freeblock]
        omega
      refine ((wp_iappend h h1 h2 bs).errors fun _ hno => hno hfits).bind ?_
      rintro _ σ' hs
      exact ih hs hfirst hops

/-- The image of the calls, with the bitmap. -/
def makeImage (ops : List Op) : M Unit := do
  format
  build ops
  let σ ← get
  balloc σ.freeblock

/-- The kernel reads from each file the bytes that were appended to it, and the bitmap marks
the metadata and the blocks of the files, so a new block is neither. -/
theorem kernel_reads_what_mkfs_appended (ops : List Op) (hk : Plan.start.KeepsAll ops) :
    ∃ σ s, (makeImage ops).run fresh = .ok ((), σ) ∧ fsinit σ.img = .ok (rootSb, s) ∧
      σ.freeinode = (Plan.start.after ops).freeinode ∧
      σ.freeblock = (Plan.start.after ops).freeblock ∧
      (∀ i, 1 ≤ i → i < σ.freeinode → ∀ off n, off ≤ (chunks i ops).length → off + n < 2 ^ 32 →
        ∃ t, (readInode i off n).run s = .ok ((((min n ((chunks i ops).length - off) : Nat) : Int),
          ((chunks i ops).drop off).take n), t)) ∧
      (∀ b < FSSIZE, s.bitmap b = true ↔ b < nmeta ∨ ∃ place, refAt s place = b) ∧
      ∀ b t, (fs.balloc rootSb).run s = .ok (b, t) → b ≠ 0 →
        nmeta ≤ b ∧ ∀ place, refAt s place ≠ b := by
  have hmake : Wp (makeImage ops) (fun _ σ' => ∃ σ, Stands σ (Plan.start.after ops) ∧
      fsinit σ'.img = .ok (rootSb, finished σ) ∧ σ'.freeinode = σ.freeinode ∧
        σ'.freeblock = σ.freeblock) (fun _ => False) fresh := by
    unfold makeImage
    refine wp_format.bind ?_
    rintro _ _ rfl
    refine (wp_build stands_formatted (le_refl _) ops hk).bind ?_
    rintro _ σ hs
    rw [wp_get_bind]
    exact (wp_balloc hs.super hs.room).imp fun _ σ' h => ⟨σ, hs, h⟩
  obtain ⟨_, σ', hrun, σ, hs, hinit, hino, hblk⟩ := hmake.exists_ok
  have hshows := hs.shows.finished
  refine ⟨σ', finished σ, hrun, hinit, hino.trans hs.freeinode, hblk.trans hs.freeblock, ?_,
    hshows.owned.exact.bits, ?_⟩
  · intro i h1 h2 off n hoff hn
    have hchunks : (Plan.start.after ops).contents i = chunks i ops := by
      rw [contents_after hk (fun _ _ => rfl) i]
      rfl
    rw [hino, hs.freeinode] at h2
    rw [← hchunks] at hoff ⊢
    obtain ⟨r, t, hr, rfl⟩ :=
      (Shows.wp_readInode (E := fun _ => False) hshows h1 h2 n hoff hn).exists_ok
    exact ⟨t, hr⟩
  · intro b t hb hb0
    have hfree := (fs.wp_balloc (E := fun _ => True) rootSb (finished σ)).of_ok hb
    rcases hfree with ⟨h0, _⟩ | ⟨h1, h2, _⟩
    · exact absurd h0 hb0
    · exact ⟨hshows.owned.exact.low_le_of_unused h1 h2, hshows.owned.exact.ref_ne_of_unused h1 h2⟩

theorem kernel_reads_what_mkfs_appended_two :
    ∃ σ s, (makeImage [.ialloc .file, .iappend 1 [97], .ialloc .file, .iappend 2 [98],
      .iappend 1 [99]]).run fresh = .ok ((), σ) ∧ fsinit σ.img = .ok (rootSb, s) ∧
        ∃ t, (readInode 1 0 10).run s = .ok ((2, [97, 99]), t) := by
  obtain ⟨σ, s, hrun, hinit, hino, _, hread, _⟩ := kernel_reads_what_mkfs_appended
    [.ialloc .file, .iappend 1 [97], .ialloc .file, .iappend 2 [98], .iappend 1 [99]]
    ⟨⟨by decide, by decide⟩, ⟨by decide, by decide, by decide, by decide⟩, ⟨by decide, by decide⟩,
      ⟨by decide, by decide, by decide, by decide⟩, ⟨by decide, by decide, by decide, by decide⟩,
      trivial⟩
  exact ⟨σ, s, hrun, hinit, hread 1 (by decide) (by rw [hino]; decide) 0 10 (by decide) (by decide)⟩

end xv6.mkfs
