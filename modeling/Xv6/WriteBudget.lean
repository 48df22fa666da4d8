-- The log budget of `filewrite`. A chunk of three blocks that starts inside a
-- block touches four, and each may need a block of the bitmap; but then the
-- first of them, or the indirect block, is there already.
import Mathlib.Data.Finset.Card
import Mathlib.Data.List.Dedup
import Xv6.WriteSteps

open bytes trace wp List

namespace xv6.fslog

open fs

variable {sb : Superblock} {s t u : Fs} {ip n tot off pos a bn ind : Nat}
  {src : Nat → Option UInt8} {bufs bufs' : List Buf} {l : List Event} {r : Nat × Nat}

/-! ## Blocks that are there stay -/

/-- The inode keeps its fields and the blocks that it has, and the open files are the same. -/
structure Keeps (ip : Nat) (s t : Fs) : Prop where
  addrs : ∀ k, (s.itable ip).addrs k ≠ 0 → (t.itable ip).addrs k = (s.itable ip).addrs k
  inode : t.itable ip = { s.itable ip with addrs := (t.itable ip).addrs }
  ftable : t.ftable = s.ftable

lemma Keeps.refl (ip : Nat) (s : Fs) : Keeps ip s s := ⟨fun _ _ => rfl, rfl, rfl⟩

lemma Keeps.trans (h : Keeps ip s t) (h' : Keeps ip t u) : Keeps ip s u := by
  refine ⟨fun k hk => ?_, by rw [h'.inode, h.inode], h'.ftable.trans h.ftable⟩
  have h1 := h.addrs k hk
  rw [h'.addrs k (by rwa [h1]), h1]

lemma Take.keeps (h : Take sb ip s pos a bufs t) : Keeps ip s t := by
  cases h with
  | found | full | lost | entry => exact ⟨fun _ _ => rfl, rfl, rfl⟩
  | direct hpos h0 =>
    rw [slot_of_le _ _ hpos] at h0
    refine ⟨fun k hk => ?_, by simp [takeDirect], rfl⟩
    have hne : k ≠ pos := by
      rintro rfl
      exact hk h0
    simp [takeDirect, hne]

lemma Bmap.keeps (h : Bmap sb ip s bn a bufs t) : Keeps ip s t := by
  cases h with
  | direct _ h => exact h.keeps
  | none _ h => exact h.keeps
  | entry _ _ h h' => exact h.keeps.trans h'.keeps

lemma Rounds.keeps (h : Rounds sb ip src n tot off s bufs r t) : Keeps ip s t := by
  induction h with
  | done => exact .refl ..
  | full _ h => exact h.keeps
  | stop _ _ h => exact { h.keeps with }
  | round _ _ h _ _ ih => exact h.keeps.trans ⟨ih.addrs, ih.inode, ih.ftable⟩

lemma Take.mapped (h : Take sb ip s pos a bufs t) (ha : a ≠ 0) (hpos : pos ≤ NDIRECT) :
    (t.itable ip).addrs pos ≠ 0 := by
  cases h with
  | found h0 => rwa [slot_of_le _ _ hpos] at h0
  | full | lost => exact absurd rfl ha
  | direct _ _ hb => simpa [takeDirect] using hb
  | entry => omega

lemma Bmap.mapped (h : Bmap sb ip s bn a bufs t) (ha : a ≠ 0) :
    (t.itable ip).addrs (min bn NDIRECT) ≠ 0 := by
  cases h with
  | direct hd h =>
    rw [Nat.min_eq_left (by omega)]
    exact h.mapped ha (by omega)
  | none => exact absurd rfl ha
  | entry hd hind h h' =>
    rw [Nat.min_eq_right (by omega)]
    have h1 := h.mapped hind (Nat.le_refl _)
    rwa [h'.keeps.addrs NDIRECT h1]

/-! ## How many buffers are passed to the log -/

def spanned (off k : Nat) : Nat := if k = 0 then 0 else (off % BSIZE + k + (BSIZE - 1)) / BSIZE

lemma spanned_chunk (h : tot < n) (off : Nat) :
    spanned (off + chunk n tot off) (n - (tot + chunk n tot off)) + 1 = spanned off (n - tot) := by
  unfold spanned chunk
  rw [BSIZE_eq]
  split <;> split <;> omega

lemma Take.logged (h : Take sb ip s pos a bufs t) :
    ∃ X : Finset Buf, X.card ≤ 2 ∧ (a ≠ 0 → .block a ∈ X) ∧
      ∀ c ∈ bufs, c ∈ X ∨ NDIRECT < pos ∧ c = .block ((s.itable ip).addrs NDIRECT) := by
  cases h with
  | found => exact ⟨{.block (slot s ip pos)}, by simp, by simp, by simp⟩
  | full => exact ⟨∅, by simp, by simp, by simp⟩
  | lost => exact ⟨{.bitmap (0 / BPB), .block 0}, Finset.card_le_two, by simp, by simp⟩
  | direct => exact ⟨{.bitmap (a / BPB), .block a}, Finset.card_le_two, by simp, by simp⟩
  | entry =>
    refine ⟨{.bitmap (a / BPB), .block a}, Finset.card_le_two, by simp, fun c hc => ?_⟩
    simp only [mem_cons, not_mem_nil, or_false] at hc
    rcases hc with rfl | rfl | rfl
    · simp
    · simp
    · exact .inr ⟨by omega, rfl⟩

lemma Bmap.logged_of_indirect (h : Bmap sb ip s bn a bufs t)
    (hind : (s.itable ip).addrs NDIRECT = ind) (h0 : ind ≠ 0) :
    ∃ X : Finset Buf, X.card ≤ 2 ∧ (a ≠ 0 → .block a ∈ X) ∧ ∀ c ∈ bufs, c ∈ X ∨ c = .block ind := by
  have hfound : ∀ {bufs : List Buf} {a : Nat} {t : Fs}, Take sb ip s NDIRECT a bufs t →
      bufs = [] ∧ t = s := by
    intro bufs a t h
    have hslot : slot s ip NDIRECT ≠ 0 := by
      rw [slot_of_le _ _ (Nat.le_refl _), hind]
      exact h0
    generalize hpos : NDIRECT = pos at h
    rw [hpos] at hslot
    cases h with
    | found => exact ⟨rfl, rfl⟩
    | full h1 => exact absurd h1 hslot
    | lost h1 => exact absurd h1 hslot
    | direct _ h1 => exact absurd h1 hslot
    | entry => omega
  cases h with
  | direct hd h =>
    obtain ⟨X, h1, h2, h3⟩ := h.logged
    exact ⟨X, h1, h2, fun c hc => (h3 c hc).imp id fun hx => by omega⟩
  | none hd h =>
    obtain ⟨rfl, rfl⟩ := hfound h
    exact ⟨∅, by simp, by simp, by simp⟩
  | entry hd _ h h' =>
    obtain ⟨rfl, rfl⟩ := hfound h
    obtain ⟨X, h1, h2, h3⟩ := h'.logged
    rw [hind] at h3
    exact ⟨X, h1, h2, fun c hc => (h3 c hc).imp id And.right⟩

lemma Rounds.logged_of_indirect (h : Rounds sb ip src n tot off s bufs r t)
    (hind : (s.itable ip).addrs NDIRECT = ind) (h0 : ind ≠ 0) :
    ∃ X : Finset Buf, X.card ≤ 2 * spanned off (n - tot) ∧ ∀ c ∈ bufs, c ∈ X ∨ c = .block ind := by
  induction h with
  | done => exact ⟨∅, by simp, by simp⟩
  | @full tot off s t bufs hlt h =>
    obtain ⟨X, h1, _, h3⟩ := h.logged_of_indirect hind h0
    have hspan := spanned_chunk hlt off
    exact ⟨X, by omega, h3⟩
  | @stop tot off a s t bufs hlt _ h =>
    obtain ⟨X, h1, _, h3⟩ := h.logged_of_indirect hind h0
    have hspan := spanned_chunk hlt off
    exact ⟨X, by omega, h3⟩
  | @round tot off a s t u bufs bufs' r hlt ha h _ _ ih =>
    obtain ⟨X, h1, h2, h3⟩ := h.logged_of_indirect hind h0
    have hkeep : (t.itable ip).addrs NDIRECT = ind := by
      rw [h.keeps.addrs NDIRECT (by rw [hind]; exact h0), hind]
    obtain ⟨Y, h4, h5⟩ := ih hkeep
    have hspan := spanned_chunk hlt off
    refine ⟨X ∪ Y, (Finset.card_union_le X Y).trans (by omega), fun c hc => ?_⟩
    simp only [mem_append, mem_cons] at hc
    rw [Finset.mem_union]
    rcases hc with hc | rfl | hc
    · exact (h3 c hc).imp Or.inl id
    · exact .inl (.inl (h2 ha))
    · exact (h5 c hc).imp Or.inr id

lemma Bmap.logged (h : Bmap sb ip s bn a bufs t) :
    (bn < NDIRECT ∧ Take sb ip s bn a bufs t) ∨ ∃ X : Finset Buf, X.card ≤ 4 ∧
      (a ≠ 0 → .block a ∈ X ∧ (t.itable ip).addrs NDIRECT ≠ 0 ∧
        .block ((t.itable ip).addrs NDIRECT) ∈ X) ∧ ∀ c ∈ bufs, c ∈ X := by
  cases h with
  | direct hd h => exact .inl ⟨hd, h⟩
  | none hd h =>
    obtain ⟨X, h1, _, h3⟩ := h.logged
    exact .inr ⟨X, by omega, by simp, fun c hc => (h3 c hc).resolve_right fun hx => by omega⟩
  | entry hd hind h h' =>
    obtain ⟨X, h1, h2, h3⟩ := h.logged
    obtain ⟨Y, h4, h5, h6⟩ := h'.logged
    have ha := h.indirect hind
    have hkeep := h'.keeps.addrs NDIRECT (by rw [ha]; exact hind)
    rw [ha] at h6 hkeep
    have hX : ∀ c ∈ _, c ∈ X := fun c hc => (h3 c hc).resolve_right fun hx => by omega
    refine .inr ⟨X ∪ Y, (Finset.card_union_le X Y).trans (by omega), fun ha' => ⟨?_, ?_⟩, ?_⟩
    · exact Finset.mem_union_right X (h5 ha')
    · rw [hkeep]
      exact ⟨hind, Finset.mem_union_left Y (h2 hind)⟩
    · intro c hc
      rcases mem_append.mp hc with hc | hc
      · exact Finset.mem_union_left Y (hX c hc)
      · rcases h6 c hc with hc | ⟨_, rfl⟩
        · exact Finset.mem_union_right X hc
        · exact Finset.mem_union_left Y (h2 hind)

lemma Take.logged_direct (h : Take sb ip s pos a bufs t) (hpos : pos ≤ NDIRECT) :
    ∃ X : Finset Buf, X.card ≤ 2 ∧ (a ≠ 0 → .block a ∈ X) ∧ ∀ c ∈ bufs, c ∈ X := by
  obtain ⟨X, h1, h2, h3⟩ := h.logged
  exact ⟨X, h1, h2, fun c hc => (h3 c hc).resolve_right fun hx => by omega⟩

lemma Bmap.logged_le (h : Bmap sb ip s bn a bufs t) :
    ∃ X : Finset Buf, X.card ≤ 4 ∧ ∀ c ∈ bufs, c ∈ X := by
  rcases h.logged with ⟨hd, h⟩ | ⟨X, h1, _, h3⟩
  · obtain ⟨X, h1, _, h3⟩ := h.logged_direct (by omega)
    exact ⟨X, by omega, h3⟩
  · exact ⟨X, h1, h3⟩

lemma Rounds.logged (h : Rounds sb ip src n tot off s bufs r t) :
    ∃ X : Finset Buf, X.card ≤ 2 * spanned off (n - tot) + 2 ∧ ∀ c ∈ bufs, c ∈ X := by
  induction h with
  | done => exact ⟨∅, by simp, by simp⟩
  | @full tot off s t bufs hlt h =>
    have hspan := spanned_chunk hlt off
    obtain ⟨X, h1, h2⟩ := h.logged_le
    exact ⟨X, by omega, h2⟩
  | @stop tot off a s t bufs hlt _ h =>
    have hspan := spanned_chunk hlt off
    obtain ⟨X, h1, h2⟩ := h.logged_le
    exact ⟨X, by omega, h2⟩
  | @round tot off a s t u bufs bufs' r hlt ha h _ hrest ih =>
    have hspan := spanned_chunk hlt off
    rcases h.logged with ⟨hd, h⟩ | ⟨X, h1, h2, h3⟩
    · obtain ⟨X, h1, h2, h3⟩ := h.logged_direct (by omega)
      obtain ⟨Y, h4, h5⟩ := ih
      refine ⟨X ∪ Y, (Finset.card_union_le X Y).trans (by omega), fun c hc => ?_⟩
      simp only [mem_append, mem_cons] at hc
      rw [Finset.mem_union]
      rcases hc with hc | rfl | hc
      · exact .inl (h3 c hc)
      · exact .inl (h2 ha)
      · exact .inr (h5 c hc)
    · -- from here on the file has its indirect block
      obtain ⟨ha', hind, hin⟩ := h2 ha
      obtain ⟨Y, h4, h5⟩ := hrest.logged_of_indirect rfl hind
      refine ⟨X ∪ Y, (Finset.card_union_le X Y).trans (by omega), fun c hc => ?_⟩
      simp only [mem_append, mem_cons] at hc
      rw [Finset.mem_union]
      rcases hc with hc | rfl | hc
      · exact .inl (h3 c hc)
      · exact .inl ha'
      · rcases h5 c hc with hc | rfl
        · exact .inr hc
        · exact .inl hin

lemma Rounds.logged_of_first (h : Rounds sb ip src n tot off s bufs r t)
    (hd : off / BSIZE < NDIRECT) (h0 : (s.itable ip).addrs (off / BSIZE) ≠ 0) :
    ∃ X : Finset Buf, X.card ≤ 2 * spanned off (n - tot) + 1 ∧ ∀ c ∈ bufs, c ∈ X := by
  have hfound : ∀ {bufs : List Buf} {a : Nat} {t : Fs}, Bmap sb ip s (off / BSIZE) a bufs t →
      bufs = [] := by
    intro bufs a t h
    have hslot : slot s ip (off / BSIZE) ≠ 0 := by
      rw [slot_of_le _ _ (by omega)]
      exact h0
    rcases h with ⟨_, h⟩ | ⟨hc, _⟩ | ⟨hc, _, _, _⟩
    · generalize off / BSIZE = pos at *
      cases h with
      | found => rfl
      | full h1 => exact absurd h1 hslot
      | lost h1 => exact absurd h1 hslot
      | direct _ h1 => exact absurd h1 hslot
      | entry _ _ h1 => exact absurd h1 hslot
    · exact absurd hd hc
    · exact absurd hd hc
  cases h with
  | done => exact ⟨∅, by simp, by simp⟩
  | full hlt h =>
    rw [hfound h]
    exact ⟨∅, by simp, by simp⟩
  | stop hlt _ h =>
    rw [hfound h]
    exact ⟨∅, by simp, by simp⟩
  | @round _ _ a _ _ _ _ bufs' _ hlt ha h _ hrest =>
    have hspan := spanned_chunk hlt off
    obtain ⟨Y, h1, h2⟩ := hrest.logged
    rw [hfound h]
    refine ⟨insert (.block a) Y, (Finset.card_insert_le _ _).trans (by omega), fun c hc => ?_⟩
    rw [nil_append, mem_cons] at hc
    rw [Finset.mem_insert]
    exact hc.imp id (h2 c)

/-! ## One transaction -/

/-- A write that starts inside a block finds that block, or the indirect block. -/
def Ready (s : Fs) (ip off : Nat) : Prop :=
  off % BSIZE ≠ 0 → (s.itable ip).addrs (min (off / BSIZE) NDIRECT) ≠ 0

lemma Ready.of_holeFree (h : HoleFree (flush ip s) (s.itable ip).inum)
    (hoff : off ≤ (s.itable ip).size) : Ready s ip off := by
  intro hmod
  have hlt : off / BSIZE * BSIZE < off := by
    rw [BSIZE_eq] at *
    omega
  have hblock := h (off / BSIZE) (by rw [flush_dinode_self]; omega)
  have hmax := blockOf_lt hblock
  unfold blockOf refAt Dinode.place at hblock
  rw [flush_dinode_self] at hblock
  by_cases hd : off / BSIZE < NDIRECT
  · rw [Nat.min_eq_left (by omega)]
    rw [placeOf_direct hd] at hblock
    intro hc
    apply hblock
    rw [if_pos (Nat.le_of_lt hd), hc]
    simp
  · rw [Nat.min_eq_right (by omega)]
    rw [placeOf_indirect hd] at hblock
    intro hc
    apply hblock
    rw [if_neg (show ¬ NDIRECT + 1 + (off / BSIZE - NDIRECT) ≤ NDIRECT by omega), hc]
    simp

lemma spanned_writeMax (h : n ≤ writeMax) (off : Nat) :
    spanned off n ≤ 4 ∧ (off % BSIZE = 0 → spanned off n ≤ 3) := by
  have hmax : writeMax = 3072 := rfl
  have hmod := Nat.mod_lt off (show 0 < BSIZE by decide)
  unfold spanned
  rw [BSIZE_eq] at *
  split
  · omega
  · omega

lemma Rounds.logged_chunk (h : Rounds sb ip src n 0 off s bufs r t) (hn : n ≤ writeMax)
    (hr : Ready s ip off) : ∃ X : Finset Buf, X.card + 1 ≤ MAXOPBLOCKS ∧ ∀ c ∈ bufs, c ∈ X := by
  have hmax : MAXOPBLOCKS = 10 := rfl
  obtain ⟨h4, h3⟩ := spanned_writeMax hn off
  by_cases hmod : off % BSIZE = 0
  · obtain ⟨X, h1, h2⟩ := h.logged
    rw [Nat.sub_zero] at h1
    have := h3 hmod
    exact ⟨X, by omega, h2⟩
  · have h0 := hr hmod
    by_cases hd : off / BSIZE < NDIRECT
    · rw [Nat.min_eq_left (by omega)] at h0
      obtain ⟨X, h1, h2⟩ := h.logged_of_first hd h0
      rw [Nat.sub_zero] at h1
      exact ⟨X, by omega, h2⟩
    · rw [Nat.min_eq_right (by omega)] at h0
      obtain ⟨X, h1, h2⟩ := h.logged_of_indirect rfl h0
      rw [Nat.sub_zero] at h1
      refine ⟨insert (.block ((s.itable ip).addrs NDIRECT)) X, ?_, fun c hc => ?_⟩
      · have := Finset.card_insert_le (.block ((s.itable ip).addrs NDIRECT)) X
        omega
      · rw [Finset.mem_insert]
        exact (h2 c hc).symm

lemma Rounds.offset (h : Rounds sb ip src n tot off s bufs r t) : r.2 + tot = off + r.1 := by
  induction h with
  | done | full | stop => rfl
  | round _ _ _ _ _ ih => omega

lemma Rounds.ready (h : Rounds sb ip src n tot off s bufs r t) (hne : r.2 ≠ off) :
    Ready t ip r.2 := by
  induction h with
  | done | full | stop => exact absurd rfl hne
  | @round tot off a s t u bufs bufs' r hlt ha h _ hrest ih =>
    by_cases hend : r.2 = off + chunk n tot off
    · intro hmod
      have hsame : r.2 / BSIZE = off / BSIZE := by
        rw [hend] at hmod ⊢
        unfold chunk at *
        rw [BSIZE_eq] at *
        omega
      have hmapped := h.mapped ha
      rw [hsame, hrest.keeps.addrs _ hmapped]
      exact hmapped
    · exact ih hend

lemma blocknos_le (g : Geometry) {X : Finset Buf} (h : ∀ c ∈ bufs, c ∈ X) :
    (bufs.map (Buf.blockno g)).dedup.length ≤ X.card := by
  have hsub : (bufs.map (Buf.blockno g)).toFinset ⊆ X.image (Buf.blockno g) := by
    intro c hc
    rw [mem_toFinset, mem_map] at hc
    obtain ⟨d, hd, rfl⟩ := hc
    exact Finset.mem_image_of_mem _ (h d hd)
  rw [← card_toFinset]
  exact (Finset.card_le_card hsub).trans Finset.card_image_le

/-! ## `filewrite` -/

/-- The state after `ilock`. -/
def ilocked (ip : Nat) (s : Fs) : Fs :=
  if (s.itable ip).valid = false then
    setSlot ip { s.itable ip with toDinode := s.dinode (s.itable ip).inum, valid := true } s
  else
    s

lemma wp_ilock (ip : Nat) (s : Fs) :
    Wp (ilock ip) (fun _ t => t = ilocked ip s) (fun _ => True) s := by
  unfold ilock
  rw [wp_get_bind]
  refine wp_ite (fun _ => (wp_throw _).mpr trivial) (fun _ => ?_)
  apply wp_ite <;> intro hv
  · rw [wp_modifyInode_bind]
    refine wp_ite (fun _ => (wp_throw _).mpr trivial) (fun _ => ?_)
    rw [wp_pure]
    exact (if_pos hv).symm
  · rw [wp_pure]
    exact (if_neg hv).symm

lemma wp_iunlock (ip : Nat) (s : Fs) :
    Wp (iunlock ip) (fun _ t => t = s) (fun _ => True) s := by
  unfold iunlock
  rw [wp_get_bind]
  refine wp_ite (fun _ => (wp_throw _).mpr trivial) (fun _ => ?_)
  rw [wp_pure]

lemma ilocked_ftable (ip : Nat) (s : Fs) : (ilocked ip s).ftable = s.ftable := by
  unfold ilocked
  split
  · rfl
  · rfl

lemma ilocked_inum (ip : Nat) (s : Fs) :
    ((ilocked ip s).itable ip).inum = (s.itable ip).inum := by
  unfold ilocked
  split
  · simp
  · rfl

lemma ilocked_valid (ip : Nat) (s : Fs) : ((ilocked ip s).itable ip).valid = true := by
  unfold ilocked
  split
  · simp
  · rename_i h
    simpa using h

lemma ilocked_of_valid (h : (s.itable ip).valid = true) : ilocked ip s = s :=
  if_neg (by rw [h]; decide)

def transaction (bufs : List Buf) : List Event := .begin_op :: writes bufs ++ [.end_op]

/-- The buffers fit in the log, whatever blocks they hold. -/
def Fits (bufs : List Buf) : Prop :=
  ∃ X : Finset Buf, X.card ≤ MAXOPBLOCKS ∧ ∀ c ∈ bufs, c ∈ X

/-- The file can be written where it stands. -/
def FileReady (f : Nat) (s : Fs) : Prop :=
  (s.ftable f).off ≤ ((ilocked (s.ftable f).ip s).itable (s.ftable f).ip).size →
    Ready (ilocked (s.ftable f).ip s) (s.ftable f).ip (s.ftable f).off

lemma Writei.fits {r : Int} (h : Writei sb ip src off n s r bufs t) (hn : n ≤ writeMax)
    (hready : off ≤ (s.itable ip).size → Ready s ip off) : Fits bufs := by
  cases h with
  | refused => exact ⟨∅, by simp, by simp⟩
  | @rounds _ _ u hoff _ h =>
    obtain ⟨X, h1, h2⟩ := h.logged_chunk hn (hready hoff)
    refine ⟨insert (.inode ((u.itable ip).inum / IPB)) X, (Finset.card_insert_le _ _).trans h1,
      fun c hc => ?_⟩
    rw [Finset.mem_insert]
    rcases mem_append.mp hc with hc | hc
    · exact .inr (h2 c hc)
    · exact .inl (mem_singleton.mp hc)

lemma Writei.ready {r : Int} (h : Writei sb ip src off n s r bufs t) (hr : r = n) (hn : 0 < n) :
    Ready t ip (off + n) ∧ (t.itable ip).valid = (s.itable ip).valid ∧ t.ftable = s.ftable := by
  cases h with
  | refused => omega
  | @rounds r bufs u _ _ h =>
    have hoff := h.offset
    have hready := h.ready (by omega)
    rw [show r.2 = off + n by omega] at hready
    have haddrs : ∀ size, ((resize ip size u).itable ip).addrs = (u.itable ip).addrs := by
      intro size
      simp [resize]
    refine ⟨fun hmod => ?_, ?_, h.keeps.ftable⟩
    · rw [haddrs]
      exact hready hmod
    · have hvalid : ∀ size, ((resize ip size u).itable ip).valid = (u.itable ip).valid := by
        intro size
        simp [resize]
      rw [hvalid, h.keeps.inode]

lemma wp_filewriteRound (sb : Superblock) (f : Nat) (src : Nat → Option UInt8) (i : Nat)
    (l : List Event) (hn : n ≤ writeMax) (hn0 : 0 < n) (h : FileReady f s) :
    Wp (filewriteRound sb f src i n) (fun r x => ∃ bufs t, x = (t, l ++ transaction bufs) ∧
      Fits bufs ∧ (r = n → FileReady f t)) (fun _ => True) (s, l) := by
  unfold filewriteRound
  rw [wp_quiet_bind, wp_get]
  rw [wp_note_bind, wp_quiet_bind]
  refine (wp_ilock _ s).imp ?_
  rintro _ t rfl
  generalize hip : (s.ftable f).ip = ip at *
  refine (wp_writei sb ip _ _ n _ _).bind ?_
  rintro r x ⟨bufs, t, rfl, hw⟩
  have hfits : Fits bufs := by
    apply hw.fits hn
    unfold FileReady at h
    rw [hip] at h
    exact h
  refine wp_ite (fun hpos => ?_) (fun hneg => ?_)
  · rw [wp_quiet_bind]
    unfold modifyFile
    rw [wp_modify, wp_quiet_bind]
    refine (wp_iunlock ip _).imp ?_
    rintro _ t rfl
    rw [wp_note_bind, wp_pure]
    refine ⟨bufs, _, Prod.ext rfl (by simp [transaction]), hfits, fun hr => ?_⟩
    obtain ⟨h1, h2, h3⟩ := hw.ready hr hn0
    rw [ilocked_ftable] at h3
    rw [ilocked_valid] at h2
    unfold FileReady
    dsimp only
    rw [Function.update_self]
    rw [h3, hip, ilocked_of_valid (by exact h2), hr]
    exact fun _ => h1
  · rw [wp_quiet_bind]
    refine (wp_iunlock ip _).imp ?_
    rintro _ t rfl
    rw [wp_note_bind, wp_pure]
    exact ⟨bufs, _, Prod.ext rfl (by simp [transaction]), hfits, fun hr => by omega⟩

lemma wp_filewriteLoop (sb : Superblock) (f : Nat) (src : Nat → Option UInt8) (n fuel i : Nat)
    (l : List Event) (h : FileReady f s) :
    Wp (filewriteLoop sb f src n fuel i) (fun _ x => ∃ (ops : List (List Buf)) (t : Fs),
      x = (t, l ++ ops.flatMap transaction) ∧ ∀ bufs ∈ ops, Fits bufs) (fun _ => True) (s, l) := by
  induction fuel generalizing s i l with
  | zero =>
    unfold filewriteLoop
    rw [wp_pure]
    exact ⟨[], s, by simp, by simp⟩
  | succ fuel ih =>
    apply wp_ite <;> intro hlt
    · have hpos : 0 < writeMax := by decide
      refine (wp_filewriteRound sb f src i l (Nat.min_le_right ..) (by omega) h).bind ?_
      rintro r x ⟨bufs, t, rfl, hfits, hready⟩
      apply wp_ite <;> intro hr
      · refine (ih _ _ (hready hr)).imp ?_
        rintro _ x ⟨ops, u, rfl, hops⟩
        exact ⟨bufs :: ops, u, by simp, by simpa using ⟨hfits, hops⟩⟩
      · rw [wp_pure]
        exact ⟨[bufs], t, by simp, by simpa using hfits⟩
    · rw [wp_pure]
      exact ⟨[], s, by simp, by simp⟩

/-- The file of the inode has no hole, as `ilock` finds it. -/
def FileHoleFree (f : Nat) (s : Fs) : Prop :=
  HoleFree (flush (s.ftable f).ip (ilocked (s.ftable f).ip s)) (s.itable (s.ftable f).ip).inum

/-- For every geometry of the disk, `filewrite` of any length at any offset of a file without
holes makes transactions of at most `MAXOPBLOCKS` distinct blocks each. -/
theorem filewrite_fits_the_log (g : Geometry) {f : Nat} {n : Int} {r : Int} {tr : List Event}
    (h : (s.ftable f).type = .inode → FileHoleFree f s)
    (hrun : (filewrite g.toSuperblock f src n).run (s, []) = .ok (r, (t, tr))) :
    ∃ ops : List (List Buf), tr = ops.flatMap transaction ∧
      ∀ bufs ∈ ops, (bufs.map (Buf.blockno g)).dedup.length ≤ MAXOPBLOCKS := by
  have hw : Wp (filewrite g.toSuperblock f src n) (fun _ x => ∃ ops : List (List Buf),
      x.2 = ops.flatMap transaction ∧ ∀ bufs ∈ ops, Fits bufs) (fun _ => True) (s, []) := by
    unfold filewrite
    rw [wp_quiet_bind, wp_get]
    apply wp_ite <;> intro _
    · rw [wp_pure]
      exact ⟨[], by simp, by simp⟩
    cases htype : (s.ftable f).type with
    | none => exact (wp_throw _).mpr trivial
    | pipe =>
      dsimp only
      rw [wp_pure]
      exact ⟨[], by simp, by simp⟩
    | device =>
      dsimp only
      apply wp_ite <;> intro _
      · rw [wp_pure]
        exact ⟨[], by simp, by simp⟩
      · rw [wp_pure]
        exact ⟨[], by simp, by simp⟩
    | inode =>
      have hhole := h htype
      have hready : FileReady f s := by
        intro hoff
        apply Ready.of_holeFree _ hoff
        rw [ilocked_inum]
        exact hhole
      dsimp only
      refine (wp_filewriteLoop g.toSuperblock f src _ _ 0 [] hready).bind ?_
      rintro i x ⟨ops, t, rfl, hops⟩
      apply wp_ite <;> intro _
      · rw [wp_pure]
        exact ⟨ops, rfl, hops⟩
      · rw [wp_pure]
        exact ⟨ops, rfl, hops⟩
  obtain ⟨ops, htr, hops⟩ := hw.of_ok hrun
  refine ⟨ops, htr, fun bufs hb => ?_⟩
  obtain ⟨X, h1, h2⟩ := hops bufs hb
  exact (blocknos_le g h2).trans h1

theorem filewrite_of_two_bytes_fits :
    ∃ t tr, (filewrite smallSb 0 (fun _ => some 7) 2).run (smallDisk 5, []) = .ok (2, (t, tr)) ∧
      ∃ ops : List (List Buf), tr = ops.flatMap transaction ∧
        ∀ bufs ∈ ops, (bufs.map (Buf.blockno ⟨smallSb, 0, 0⟩)).dedup.length ≤ MAXOPBLOCKS := by
  have hret : returns (filewrite smallSb 0 (fun _ => some 7) 2) 2 (smallDisk 5, []) = true := by
    decide +kernel
  obtain ⟨⟨t, tr⟩, hrun⟩ := exists_of_returns hret
  refine ⟨t, tr, hrun, filewrite_fits_the_log ⟨smallSb, 0, 0⟩ (fun _ => ?_) hrun⟩
  have hfree := smallDisk_holeFree (show 5 ≤ BSIZE by decide)
  rw [← smallDisk_synced] at hfree
  unfold FileHoleFree
  rw [ilocked_of_valid rfl]
  exact hfree

end xv6.fslog
