-- The blocks as the cache shows them. `Sees` says that every block has
-- contents `L`: in its buffer when it has a valid one, and else on the disk.
-- Each call of `bio.c` keeps it, so a buffer that is taken over never loses
-- contents that the disk does not have.
import Xv6.Bio

open bytes

namespace xv6.bio

/-- The cache of device `dev` shows the contents `L` over the disk. `pins b` is how often the
log has pinned block `b`. A dirty buffer was modified and is not yet passed to the log. -/
structure Sees (dev : Nat) (pins : Nat → Nat) (dirty : Nat → Bool) (L disk : Nat → Bytes)
    (bc : Bcache) : Prop where
  wf : WF bc
  dev_ne : dev ≠ 0
  refs : ∀ i < NBUF, (bc.buf i).refcnt = (if (bc.buf i).lock = none then 0 else 1) +
    (if (bc.buf i).dev = dev then pins (bc.buf i).blockno else 0)
  vals : ∀ i < NBUF, (bc.buf i).valid = true → (bc.buf i).dev = dev ∧
    (dirty i = false → (bc.buf i).data = L (bc.buf i).blockno)
  clean : ∀ b, pins b = 0 → disk b = L b
  pinned : ∀ b, pins b ≠ 0 → ∃ i < NBUF, (bc.buf i).dev = dev ∧ (bc.buf i).blockno = b ∧
    (bc.buf i).valid = true
  dirty_locked : ∀ i < NBUF, dirty i = true → (bc.buf i).lock ≠ none

/-- Process `p` holds buffer `i` of block `b`, and the buffer is valid. -/
structure Holds (bc : Bcache) (dev p i b : Nat) : Prop where
  lt : i < NBUF
  valid : (bc.buf i).valid = true
  dev : (bc.buf i).dev = dev
  blockno : (bc.buf i).blockno = b
  lock : (bc.buf i).lock = some p

variable {dev : Nat} {pins : Nat → Nat} {dirty : Nat → Bool} {L disk : Nat → Bytes} {bc : Bcache}

lemma sees_binit (hdev : dev ≠ 0) (disk : Nat → Bytes) :
    Sees dev (fun _ => 0) (fun _ => false) disk disk binit := by
  refine ⟨wf_binit, hdev, ?_, ?_, fun _ _ => rfl, ?_, ?_⟩
  · intro i _
    simp [binit, hdev.symm]
  · intro i _ hv
    simp [binit] at hv
  · intro b hb
    exact absurd rfl hb
  · intro i _ hd
    cases hd

variable {b i p : Nat} {bc' : Bcache}

section

variable (h : Sees dev pins dirty L disk bc)
include h

lemma Sees.disk_of_not_valid
    (hno : ∀ i < NBUF, (bc.buf i).dev = dev → (bc.buf i).blockno = b → (bc.buf i).valid = false) :
    pins b = 0 ∧ disk b = L b := by
  have hp : pins b = 0 := by
    by_contra hne
    obtain ⟨i, hi, h1, h2, h3⟩ := h.pinned b hne
    rw [hno i hi h1 h2] at h3
    cases h3
  exact ⟨hp, h.clean b hp⟩

lemma Sees.bread
    (hr : bread disk bc p dev b = .ok (i, bc')) :
    Sees dev pins dirty L disk bc' ∧ Holds bc' dev p i b ∧ dirty i = false ∧
      (bc'.buf i).data = L b ∧ (bc.buf i).lock = none ∧ (∀ j, j ≠ i → bc'.buf j = bc.buf j) := by
  obtain ⟨hi, hother, _, hlock, hcase⟩ := bread_ok h.wf hr
  have hnd : dirty i = false := by
    by_contra hd
    exact h.dirty_locked i hi (by simpa using hd) hlock
  have href := h.refs i hi
  rw [hlock] at href
  -- the buffer after the call: its fields, and how often it is now used
  have hbuf : bc'.buf i = ⟨true, dev, b, some p, 1 + pins b, L b⟩ := by
    rcases hcase with ⟨h1, h2, h3⟩ | ⟨_, h2, h3⟩
    · rw [h3]
      have hdata : (if (bc.buf i).valid then (bc.buf i).data else disk b) = L b := by
        split
        · rename_i hv
          rw [(h.vals i hi hv).2 hnd, h2]
        · rename_i hv
          refine (h.disk_of_not_valid ?_).2
          intro j hj hj1 hj2
          have : i = j := h.wf.unique i j hi hj (by rw [h1]; exact h.dev_ne) (by rw [h1, hj1])
            (by rw [h2, hj2])
          rw [← this]
          simpa using hv
      rw [hdata]
      simp only [h1, h2, if_true] at href
      rw [href]
      simp [Nat.add_comm]
    · have hb := h.disk_of_not_valid (fun j hj h1 h2' => absurd ⟨h1, h2'⟩ (h2 j hj))
      rw [h3, hb.1, hb.2]
  refine ⟨⟨h.wf.bread h.dev_ne hr, h.dev_ne, ?_, ?_, h.clean, ?_, ?_⟩, ?_, hnd, ?_, hlock, hother⟩
  · intro j hj
    by_cases hji : j = i
    · subst hji
      simp [hbuf]
    · rw [hother j hji]
      exact h.refs j hj
  · intro j hj hv
    by_cases hji : j = i
    · subst hji
      simp [hbuf]
    · rw [hother j hji] at hv ⊢
      exact h.vals j hj hv
  · intro c hc
    obtain ⟨j, hj, h1, h2, h3⟩ := h.pinned c hc
    by_cases hji : j = i
    · subst hji
      refine ⟨j, hj, by simp [hbuf], ?_, by simp [hbuf]⟩
      rcases hcase with ⟨_, h5, _⟩ | ⟨h4, _, _⟩
      · rw [hbuf, ← h2, h5]
      · rw [h4, h1, h2] at href
        simp only [if_true] at href
        omega
    · exact ⟨j, hj, by rw [hother j hji]; exact ⟨h1, h2, h3⟩⟩
  · intro j hj hd
    by_cases hji : j = i
    · subst hji
      rw [hnd] at hd
      cases hd
    · rw [hother j hji]
      exact h.dirty_locked j hj hd
  · exact ⟨hi, by simp [hbuf], by simp [hbuf], by simp [hbuf], by simp [hbuf]⟩
  · simp [hbuf]

lemma Sees.brelse
    (hh : Holds bc dev p i b) (hnd : dirty i = false) (hr : brelse bc p i = .ok bc') :
    Sees dev pins dirty L disk bc' ∧ (bc'.buf i).lock = none ∧
      (∀ j, j ≠ i → bc'.buf j = bc.buf j) := by
  obtain ⟨_, hbuf, hother, hwf⟩ := brelse_ok h.wf hh.lt hr
  refine ⟨⟨hwf, h.dev_ne, ?_, ?_, h.clean, ?_, ?_⟩, by rw [hbuf], hother⟩
  · intro j hj
    by_cases hji : j = i
    · subst hji
      have href := h.refs j hj
      simp only [hh.lock, reduceCtorEq, if_false] at href
      simp only [hbuf, if_true]
      omega
    · rw [hother j hji]
      exact h.refs j hj
  · intro j hj hv
    by_cases hji : j = i
    · subst hji
      simp only [hbuf] at hv ⊢
      exact h.vals j hj hv
    · rw [hother j hji] at hv ⊢
      exact h.vals j hj hv
  · intro c hc
    obtain ⟨j, hj, h1, h2, h3⟩ := h.pinned c hc
    by_cases hji : j = i
    · subst hji
      exact ⟨j, hj, by simp only [hbuf]; exact ⟨h1, h2, h3⟩⟩
    · exact ⟨j, hj, by rw [hother j hji]; exact ⟨h1, h2, h3⟩⟩
  · intro j hj hd
    by_cases hji : j = i
    · subst hji
      rw [hnd] at hd
      cases hd
    · rw [hother j hji]
      exact h.dirty_locked j hj hd

lemma Holds.other_block {p i b j : Nat}
    (hh : Holds bc dev p i b) (hj : j < NBUF) (hne : j ≠ i) (hdev : (bc.buf j).dev = dev) :
    (bc.buf j).blockno ≠ b := by
  intro hb
  exact hne (h.wf.unique j i hj hh.lt (by rw [hdev]; exact h.dev_ne) (by rw [hdev, hh.dev])
    (by rw [hb, hh.blockno]))

end

lemma Holds.congr (hh : Holds bc dev p i b)
    (h : bc'.buf i = bc.buf i) : Holds bc' dev p i b :=
  ⟨hh.lt, by rw [h]; exact hh.valid, by rw [h]; exact hh.dev, by rw [h]; exact hh.blockno,
    by rw [h]; exact hh.lock⟩

lemma Holds.set {p i b j : Nat} {x : Buf} (hh : Holds bc dev p i b)
    (hx : j = i → x.valid = true ∧ x.dev = dev ∧ x.blockno = b ∧ x.lock = some p) :
    Holds (bc.set j x) dev p i b := by
  by_cases hji : i = j
  · subst hji
    obtain ⟨h1, h2, h3, h4⟩ := hx rfl
    exact ⟨hh.lt, by simp [h1], by simp [h2], by simp [h3], by simp [h4]⟩
  · exact ⟨hh.lt, by simp [hji, hh.valid], by simp [hji, hh.dev], by simp [hji, hh.blockno],
      by simp [hji, hh.lock]⟩

lemma Sees.change {p i b k : Nat} {v : Bytes} {pins' : Nat → Nat} {dirty' : Nat → Bool}
    {L' disk' : Nat → Bytes} (h : Sees dev pins dirty L disk bc) (hh : Holds bc dev p i b)
    (hk : k = 1 + pins' b) (hpins : ∀ c, c ≠ b → pins' c = pins c)
    (hL : ∀ c, c ≠ b → L' c = L c) (hdisk : ∀ c, c ≠ b → disk' c = disk c)
    (hclean : pins' b = 0 → disk' b = L' b) (hdirty : ∀ j, j ≠ i → dirty' j = dirty j)
    (hv : dirty' i = false → v = L' b) :
    Sees dev pins' dirty' L' disk' (bc.set i { bc.buf i with data := v, refcnt := k }) := by
  refine ⟨h.wf.set rfl rfl, h.dev_ne, ?_, ?_, ?_, ?_, ?_⟩
  · intro j hj
    by_cases hji : j = i
    · subst hji
      simp [hh.lock, hh.dev, hh.blockno, hk]
    · rw [set_buf_ne _ _ hji]
      have href := h.refs j hj
      by_cases hd : (bc.buf j).dev = dev
      · rw [if_pos hd] at href ⊢
        rw [hpins _ (hh.other_block h hj hji hd)]
        exact href
      · rw [if_neg hd] at href ⊢
        exact href
  · intro j hj hval
    by_cases hji : j = i
    · subst hji
      simpa [hh.dev, hh.blockno] using hv
    · rw [set_buf_ne _ _ hji] at hval ⊢
      obtain ⟨hd, hdata⟩ := h.vals j hj hval
      rw [hdirty j hji, hL _ (hh.other_block h hj hji hd)]
      exact ⟨hd, hdata⟩
  · intro c hc
    by_cases hcb : c = b
    · subst hcb
      exact hclean hc
    · rw [hdisk c hcb, hL c hcb]
      exact h.clean c (by rw [← hpins c hcb]; exact hc)
  · intro c hc
    by_cases hcb : c = b
    · subst hcb
      exact ⟨i, hh.lt, by simp [hh.dev], by simp [hh.blockno], by simp [hh.valid]⟩
    · obtain ⟨j, hj, h1, h2, h3⟩ := h.pinned c (by rw [← hpins c hcb]; exact hc)
      by_cases hji : j = i
      · subst hji
        exact absurd (h2.symm.trans hh.blockno) hcb
      · exact ⟨j, hj, by simpa [hji] using ⟨h1, h2, h3⟩⟩
  · intro j hj hd
    by_cases hji : j = i
    · subst hji
      simp [hh.lock]
    · rw [set_buf_ne _ _ hji]
      exact h.dirty_locked j hj (by rw [← hdirty j hji]; exact hd)

lemma Sees.refcnt_of_holds (h : Sees dev pins dirty L disk bc)
    (hh : Holds bc dev p i b) : (bc.buf i).refcnt = 1 + pins b := by
  have href := h.refs i hh.lt
  simpa [hh.lock, hh.dev, hh.blockno] using href

end xv6.bio
