-- What one round of the loops of `log.c` does to the disk and to the contents
-- that the cache shows.
import Xv6.Commit

open bytes redo_log Function

namespace xv6.log

open bio

/-! ## The rounds over the contents that the cache shows -/

lemma bind_ok {ε α β : Type} {x : Except ε α} {f : α → Except ε β} {b : β}
    (h : (x >>= f) = .ok b) : ∃ a, x = .ok a ∧ f a = .ok b := by
  cases x with
  | error e => cases h
  | ok a => exact ⟨a, rfl, h⟩

section bodies

variable {dev : Nat} {pins : Nat → Nat} {dirty : Nat → Bool} {L disk disk' : Nat → Bytes}
  {bc bc' : Bcache} {lg : Log} {p tail : Nat}

def LocksKept (bc bc' : Bcache) : Prop := ∀ i, (bc'.buf i).lock ≠ none → bc'.buf i = bc.buf i

section

variable (h : Sees dev pins dirty L disk bc)
include h

lemma sees_store {i b : Nat} {v : Bytes}
    (hh : Holds bc dev p i b) :
    Sees dev pins dirty (update L b v) (update disk b v)
      (bc.set i { bc.buf i with data := v }) :=
  h.change hh (h.refcnt_of_holds hh) (fun _ _ => rfl) (fun c hc => update_of_ne hc _ _)
    (fun c hc => update_of_ne hc _ _) (fun _ => by simp) (fun _ _ => rfl)
    (fun _ => by simp)

lemma sees_store_brelse {i b : Nat} {v : Bytes} {bc1 : Bcache} (hh : Holds bc dev p i b)
    (hnd : dirty i = false)
    (hw : bwrite disk (bc.set i { bc.buf i with data := v }) p i = .ok disk')
    (hr : brelse (bc.set i { bc.buf i with data := v }) p i = .ok bc1) :
    disk' = update disk b v ∧ Sees dev pins dirty (update L b v) disk' bc1 ∧
      (bc1.buf i).lock = none ∧ ∀ j, j ≠ i → bc1.buf j = bc.buf j := by
  obtain ⟨_, rfl⟩ := bwrite_ok hw
  have hd : update disk ((bc.set i { bc.buf i with data := v }).buf i).blockno
      ((bc.set i { bc.buf i with data := v }).buf i).data = update disk b v := by
    simp [hh.blockno]
  rw [hd]
  have hh' : Holds (bc.set i { bc.buf i with data := v }) dev p i b :=
    hh.set (fun _ => ⟨hh.valid, hh.dev, hh.blockno, hh.lock⟩)
  obtain ⟨hs, hl, hoth⟩ := (sees_store h hh).brelse hh' hnd hr
  exact ⟨rfl, hs, hl, fun j hj => by rw [hoth j hj, set_buf_ne _ _ hj]⟩

lemma write_head_ok (hdev : lg.dev = dev)
    (hr : write_head disk bc lg p = .ok (disk', bc')) :
    disk' = update disk lg.start (putHead lg.lh (L lg.start)) ∧
      Sees dev pins dirty (update L lg.start (putHead lg.lh (L lg.start))) disk' bc' ∧
      LocksKept bc bc' := by
  subst hdev
  unfold write_head at hr
  obtain ⟨⟨i, bc1⟩, h1, hr⟩ := bind_ok hr
  obtain ⟨hs1, hh1, hnd, hdata, _, hoth1⟩ := h.bread h1
  dsimp only at hr
  obtain ⟨d1, hw, hr⟩ := bind_ok hr
  obtain ⟨bc2, hrel, hr⟩ := bind_ok hr
  cases hr
  rw [hdata] at hw hrel
  obtain ⟨hd, hs2, hl, hoth2⟩ := sees_store_brelse hs1 hh1 hnd hw hrel
  refine ⟨hd, hs2, ?_⟩
  intro j hj
  by_cases hji : j = i
  · subst hji
    exact absurd hl hj
  · rw [hoth2 j hji, hoth1 j hji]

lemma read_head_ok {lg' : Log} (hdev : lg.dev = dev)
    (hr : read_head disk bc lg p = .ok (bc', lg')) :
    lg' = { lg with lh := headOf (L lg.start) } ∧ Sees dev pins dirty L disk bc' ∧
      LocksKept bc bc' := by
  subst hdev
  unfold read_head at hr
  obtain ⟨⟨i, bc1⟩, h1, hr⟩ := bind_ok hr
  obtain ⟨hs1, hh1, hnd, hdata, _, hoth1⟩ := h.bread h1
  dsimp only at hr
  obtain ⟨bc2, hrel, hr⟩ := bind_ok hr
  cases hr
  obtain ⟨hs2, hl, hoth2⟩ := hs1.brelse hh1 hnd hrel
  refine ⟨by rw [hdata], hs2, ?_⟩
  intro j hj
  by_cases hji : j = i
  · subst hji
    exact absurd hl hj
  · rw [hoth2 j hji, hoth1 j hji]

lemma sees_two_breads {a b i j : Nat} {bc1 bc2 : Bcache}
    (h1 : bread disk bc p dev a = .ok (i, bc1)) (h2 : bread disk bc1 p dev b = .ok (j, bc2)) :
    Sees dev pins dirty L disk bc2 ∧ i ≠ j ∧ Holds bc2 dev p i a ∧ Holds bc2 dev p j b ∧
      dirty i = false ∧ dirty j = false ∧ (bc2.buf i).data = L a ∧ (bc2.buf j).data = L b ∧
      ∀ k, k ≠ i → k ≠ j → bc2.buf k = bc.buf k := by
  obtain ⟨hs1, hh1, hnd1, hd1, _, hoth1⟩ := h.bread h1
  obtain ⟨hs2, hh2, hnd2, hd2, hl2, hoth2⟩ := hs1.bread h2
  have hne : i ≠ j := by
    rintro rfl
    rw [hh1.lock] at hl2
    cases hl2
  refine ⟨hs2, hne, hh1.congr (hoth2 i hne), hh2, hnd1, hnd2, ?_, hd2, ?_⟩
  · rw [hoth2 i hne, hd1]
  · intro k hki hkj
    rw [hoth2 k hkj, hoth1 k hki]

lemma write_log_body_ok (hdev : lg.dev = dev)
    (hr : write_log_body disk bc lg p tail = .ok (disk', bc')) :
    disk' = update disk (lg.start + tail + 1) (L (lg.lh.getD tail 0)) ∧
      Sees dev pins dirty (update L (lg.start + tail + 1) (L (lg.lh.getD tail 0))) disk'
        bc' ∧ LocksKept bc bc' := by
  subst hdev
  unfold write_log_body at hr
  obtain ⟨⟨i, bc1⟩, h1, hr⟩ := bind_ok hr
  obtain ⟨⟨j, bc2⟩, h2, hr⟩ := bind_ok hr
  obtain ⟨hs, hne, hhi, hhj, hndi, hndj, _, hdj, hoth⟩ := sees_two_breads h h1 h2
  dsimp only at hr
  obtain ⟨d1, hw, hr⟩ := bind_ok hr
  obtain ⟨bc3, hrel1, hr⟩ := bind_ok hr
  obtain ⟨bc4, hrel2, hr⟩ := bind_ok hr
  cases hr
  rw [hdj] at hw hrel1
  obtain ⟨_, rfl⟩ := bwrite_ok hw
  simp only [set_buf_self, hhi.blockno]
  have hs1 := sees_store (v := L (lg.lh.getD tail 0)) hs hhi
  have hhi1 : Holds (bc2.set i { bc2.buf i with data := L (lg.lh.getD tail 0) }) lg.dev p i
      (lg.start + tail + 1) := hhi.set (fun _ => ⟨hhi.valid, hhi.dev, hhi.blockno, hhi.lock⟩)
  have hhj1 : Holds (bc2.set i { bc2.buf i with data := L (lg.lh.getD tail 0) }) lg.dev p j
      (lg.lh.getD tail 0) := hhj.congr (set_buf_ne _ _ hne.symm)
  obtain ⟨hs2, hl2, hoth2⟩ := hs1.brelse hhj1 hndj hrel1
  obtain ⟨hs3, hl3, hoth3⟩ := hs2.brelse (hhi1.congr (hoth2 i hne)) hndi hrel2
  refine ⟨trivial, hs3, ?_⟩
  intro k hk
  by_cases hki : k = i
  · subst hki
    exact absurd hl3 hk
  · rw [hoth3 k hki] at hk ⊢
    by_cases hkj : k = j
    · subst hkj
      exact absurd hl2 hk
    · rw [hoth2 k hkj, set_buf_ne _ _ hki, hoth k hki hkj]

end

/-- The pins after a round of `install_trans`. -/
def unpinned (recovering : Bool) (pins : Nat → Nat) (b : Nat) : Nat → Nat :=
  if recovering then pins else update pins b 0

lemma install_trans_body_ok {recovering : Bool} (h : Sees dev pins dirty L disk bc)
    (hdev : lg.dev = dev) (hpin : recovering = false → pins (lg.lh.getD tail 0) = 1)
    (hr : install_trans_body recovering disk bc lg p tail = .ok (disk', bc')) :
    disk' = update disk (lg.lh.getD tail 0) (L (lg.start + tail + 1)) ∧
      Sees dev (unpinned recovering pins (lg.lh.getD tail 0)) dirty
        (update L (lg.lh.getD tail 0) (L (lg.start + tail + 1))) disk' bc' ∧
      LocksKept bc bc' := by
  subst hdev
  unfold install_trans_body at hr
  obtain ⟨⟨i, bc1⟩, h1, hr⟩ := bind_ok hr
  obtain ⟨⟨j, bc2⟩, h2, hr⟩ := bind_ok hr
  obtain ⟨hs, hne, hhi, hhj, hndi, hndj, hdi, _, hoth⟩ := sees_two_breads h h1 h2
  dsimp only at hr
  obtain ⟨d1, hw, hr⟩ := bind_ok hr
  obtain ⟨bc3, hrel1, hr⟩ := bind_ok hr
  obtain ⟨bc4, hrel2, hr⟩ := bind_ok hr
  cases hr
  rw [hdi] at hw hrel1
  obtain ⟨_, rfl⟩ := bwrite_ok hw
  simp only [set_buf_self, hhj.blockno]
  generalize hv : L (lg.start + tail + 1) = v at *
  generalize hb : lg.lh.getD tail 0 = b at *
  -- the home buffer after the copy and, when not recovering, the unpin
  obtain ⟨x, hx, hxs⟩ : ∃ x, (if recovering = true then bc2.set j { bc2.buf j with data := v }
      else bunpin (bc2.set j { bc2.buf j with data := v }) j) = bc2.set j x ∧
      x = { bc2.buf j with data := v, refcnt := 1 + unpinned recovering pins b b } := by
    have href := hs.refcnt_of_holds hhj
    cases recovering with
    | true => exact ⟨_, rfl, by simp [unpinned, ← href]⟩
    | false =>
      refine ⟨{ bc2.buf j with data := v, refcnt := (bc2.buf j).refcnt - 1 }, ?_, ?_⟩
      · simp [bunpin, Bcache.set]
      · rw [href, hpin rfl]
        simp [unpinned]
  rw [hx] at hrel1
  have hs1 : Sees lg.dev (unpinned recovering pins b) dirty (update L b v)
      (update disk b v) (bc2.set j x) := by
    rw [hxs]
    refine hs.change hhj rfl ?_ (fun c hc => update_of_ne hc _ _)
      (fun c hc => update_of_ne hc _ _) (fun _ => by simp) (fun _ _ => rfl)
      (fun _ => by simp)
    intro c hc
    unfold unpinned
    split
    · rfl
    · exact update_of_ne hc _ _
  have hhj1 : Holds (bc2.set j x) lg.dev p j b :=
    hhj.set (fun _ => by rw [hxs]; exact ⟨hhj.valid, hhj.dev, hhj.blockno, hhj.lock⟩)
  have hhi1 : Holds (bc2.set j x) lg.dev p i (lg.start + tail + 1) :=
    hhi.congr (set_buf_ne _ _ hne)
  obtain ⟨hs2, hl2, hoth2⟩ := hs1.brelse hhi1 hndi hrel1
  obtain ⟨hs3, hl3, hoth3⟩ := hs2.brelse (hhj1.congr (hoth2 j hne.symm)) hndj hrel2
  refine ⟨trivial, hs3, ?_⟩
  intro k hk
  by_cases hkj : k = j
  · subst hkj
    exact absurd hl3 hk
  · rw [hoth3 k hkj] at hk ⊢
    by_cases hki : k = i
    · subst hki
      exact absurd hl2 hk
    · rw [hoth2 k hki, set_buf_ne _ _ hkj, hoth k hki hkj]

end bodies

end xv6.log
