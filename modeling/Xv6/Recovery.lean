-- Recovery of the log, and the law of crash safety over whole runs: every state
-- the machine reaches keeps the invariant of `CrashSafety.lean`, and a recovery
-- that completes leaves a prefix of the transactions on the disk.
import Xv6.CrashSafety

open bytes redo_log Function List

namespace xv6.log

open bio

/-! ## A power failure -/

variable {a : Act} {bc : Bcache} {disk : Nat → Bytes} {k : Nat} {s t : Sys}

lemma recovering_powerOn {dev logstart nlog : Nat} (hdev : dev ≠ 0)
    (hsize : 0 < nlog) (hclean : headOf (disk logstart) = []) :
    Recovering (powerOn dev logstart nlog disk) := by
  refine ⟨?_, sees_binit hdev disk, fun _ => rfl, rfl, ⟨rfl, rfl, rfl, rfl⟩, List.Pairwise.nil,
    trivial⟩
  exact durable_of_clean hsize hclean (k := 0) (le_refl 0) (le_refl 0) (fun _ _ => rfl)

lemma recovering_crash (hdev : s.log.dev ≠ 0) (hd : Durable s) (hns : NoSplit s.txns) :
    Recovering { s with bc := binit, log := initlog s.log.dev s.log.start s.log.size, phase := .boot,
                        ops := [], dirty := fun _ => false, cur := [] } :=
  ⟨{ hd with }, sees_binit hdev s.disk, fun _ => rfl, rfl,
    ⟨rfl, rfl, rfl, rfl⟩, hns, trivial⟩

/-! ## The steps of the recovery -/

lemma LocksKept.unlocked {bc bc' : Bcache} (h : LocksKept bc bc')
    (hbc : ∀ i, (bc.buf i).lock = none) (i : Nat) : (bc'.buf i).lock = none := by
  by_contra hl
  have hsame := h i hl
  rw [hsame] at hl
  exact hl (hbc i)

lemma recovering_read_head {lg : Log} (h : Recovering s)
    (hr : read_head s.disk s.bc s.log 0 = .ok (bc, lg)) :
    Recovering { s with bc, log := lg, phase := .recover 0 } := by
  obtain ⟨rfl, hs, hlocks⟩ := read_head_ok h.sees rfl hr
  refine ⟨{ h.durable with }, hs,
    hlocks.unlocked h.unlocked, h.clean, h.idle, h.nosplit, rfl, Nat.zero_le _, ?_⟩
  intro j b hj
  omega

section

variable (h : Recovering s) (hph : s.phase = .recover k)
include h hph

lemma recovering_install (hk : k < s.log.lh.length)
    (hr : install_trans_body true s.disk s.bc s.log 0 k = .ok (disk, bc)) :
    Recovering { s with disk, bc, phase := .recover (k + 1) } := by
  have hp := h.phase
  simp only [hph] at hp
  obtain ⟨hlh, _, hdone⟩ := hp
  obtain ⟨hd, hs, hlocks⟩ := install_trans_body_ok h.sees rfl (by simp) hr
  have hnd : s.log.lh.Nodup := hlh ▸ h.durable.nodup
  have hlt : s.log.lh.length < s.log.size := hlh ▸ h.durable.size
  have hx : s.log.lh[k] ∈ s.log.lh := getElem_mem hk
  have hhome : s.home s.log.lh[k] := h.durable.home _ (hlh ▸ hx)
  rw [getD_of_lt hk] at hd hs
  rw [← hd] at hs
  have hlog : ∀ j, j < s.log.size → disk (s.log.start + j) = s.disk (s.log.start + j) := by
    intro j hj
    rw [hd, update_of_ne (hhome.ne_of_log hj).symm]
  have hstart : disk s.log.start = s.disk s.log.start := hlog 0 (by omega)
  obtain ⟨c, h1, h2, hcut⟩ := h.durable.cut
  refine ⟨⟨?_, ?_, ?_, c, h1, h2, ?_⟩, hs, hlocks.unlocked h.unlocked, h.clean, h.idle,
    h.nosplit, ?_, hk, ?_⟩
  · dsimp only
    rw [hstart]
    exact h.durable.nodup
  · dsimp only
    rw [hstart]
    exact h.durable.home
  · dsimp only
    rw [hstart]
    exact h.durable.size
  · intro b hb
    have hsame := recovered_install hlh.symm hlt (getElem?_eq_getElem hk) hhome
    rw [hd, Nat.add_right_comm, hsame]
    exact hcut b hb
  · dsimp only
    rw [hstart]
    exact hlh
  · intro j b hj hjb
    dsimp only at hjb ⊢
    obtain ⟨hjlt, hget⟩ := List.getElem?_eq_some_iff.mp hjb
    rw [Nat.add_assoc, hlog (j + 1) (by omega), hd]
    by_cases hjk : j = k
    · subst hjk
      rw [← hget, update_self, Nat.add_assoc]
    · have hne : b ≠ s.log.lh[k] := by
        intro hb
        rw [← hget] at hb
        exact hjk ((hnd.getElem_inj_iff).mp hb)
      rw [update_of_ne hne, hdone j b (by omega) hjb, Nat.add_assoc]

lemma recovered_write_clean (hk : ¬ k < s.log.lh.length)
    (hr : write_head s.disk s.bc { s.log with lh := [] } 0 = .ok (disk, bc)) :
    headOf (disk s.log.start) = [] ∧
      ∀ b, s.home b → disk b = recovered headOf s.log.start s.disk b := by
  have hp := h.phase
  simp only [hph] at hp
  obtain ⟨hlh, _, hdone⟩ := hp
  obtain ⟨hd, _, _⟩ := write_head_ok h.sees (show { s.log with lh := [] }.dev = _ from rfl) hr
  have hclean : headOf (putHead [] (s.disk s.log.start)) = [] :=
    headOf_putHead _ (by simp) (by simp)
  have hlt : 0 < s.log.size := by
    have := h.durable.size
    omega
  refine ⟨by rw [hd]; simpa using hclean, ?_⟩
  intro b hb
  rw [← recovered_erase hlh.symm hclean hlt ?_ hb, recovered_of_clean (by simpa using hclean), hd]
  intro x hx
  have hi := idxOf_lt_length_of_mem hx
  rw [hdone (s.log.lh.idxOf x) x (by omega) (by simp [hx]), Nat.add_right_comm]

lemma serving_recovered (hk : ¬ k < s.log.lh.length)
    (hr : write_head s.disk s.bc { s.log with lh := [] } 0 = .ok (disk, bc)) :
    Serving { s with disk, bc, log := { s.log with lh := [] }, phase := .up, start := disk,
                     txns := [], returned := 0, cur := [], nops := 0 } := by
  obtain ⟨hclean, _⟩ := recovered_write_clean h hph hk hr
  obtain ⟨hd, hs, hlocks⟩ := write_head_ok h.sees (show { s.log with lh := [] }.dev = _ from rfl) hr
  rw [← hd] at hs
  obtain ⟨hops, _, hout, hcom⟩ := h.idle
  have hlt : 0 < s.log.size := by
    have := h.durable.size
    omega
  refine ⟨⟨disk, ?_, fun _ _ => rfl⟩, ⟨by simp, by simp, hlt, by simp⟩, ?_, ⟨?_, ?_⟩, ?_⟩
  · have hpins : ∀ t : Sys, t.log.lh = [] → t.phase = .up → t.pins = fun _ => 0 := by
      intro t ht hup
      funext b
      rw [pins_up hup, ht]
      simp
    rw [hpins _ rfl rfl]
    exact hs
  · refine ⟨by simpa [hops] using hout, by simp [hops], fun hne => absurd rfl hne, fun _ => hcom,
      ⟨by simp [hops], by simp⟩, by simp, ?_⟩
    exact pairwise_singleton _ _
  · intro i _ hl
    exact absurd (hlocks.unlocked h.unlocked i) hl
  · intro i _ hdi
    have := congrFun h.clean i
    dsimp only at hdi
    rw [this] at hdi
    cases hdi
  · exact ⟨hclean, rfl, fun _ _ => rfl, by simp⟩

end

/-! ## Whole runs -/

lemma step_geometry (h : step s a = .ok t) :
    t.log.dev = s.log.dev ∧ t.log.start = s.log.start ∧ t.log.size = s.log.size := by
  cases a with
  | begin_op p =>
    simp only [step] at h
    split at h
    · obtain ⟨lg, hb, h⟩ := bind_ok h
      cases h
      obtain ⟨_, _, rfl⟩ := begin_op_ok hb
      exact ⟨rfl, rfl, rfl⟩
    · cases h
  | bread p b =>
    simp only [step] at h
    split at h
    · obtain ⟨⟨i, bc⟩, _, h⟩ := bind_ok h
      cases h
      exact ⟨rfl, rfl, rfl⟩
    · cases h
  | modify p i data =>
    simp only [step] at h
    split at h
    · cases h
      exact ⟨rfl, rfl, rfl⟩
    · cases h
  | log_write p i =>
    simp only [step] at h
    split at h
    · split at h
      · cases h
      · obtain ⟨⟨lg, new⟩, hb, h⟩ := bind_ok h
        cases h
        obtain ⟨_, _, _, ⟨_, rfl, _⟩ | ⟨_, rfl, _⟩⟩ := log_write_ok hb
        · exact ⟨rfl, rfl, rfl⟩
        · exact ⟨rfl, rfl, rfl⟩
    · cases h
  | brelse p i =>
    simp only [step] at h
    split at h
    · obtain ⟨bc, _, h⟩ := bind_ok h
      cases h
      exact ⟨rfl, rfl, rfl⟩
    · cases h
  | end_op p =>
    simp only [step] at h
    split at h
    · obtain ⟨⟨lg, c⟩, hb, h⟩ := bind_ok h
      obtain ⟨_, ⟨_, rfl, rfl⟩ | ⟨_, rfl, rfl⟩⟩ := end_op_ok hb
      · cases h
        exact ⟨rfl, rfl, rfl⟩
      · cases h
        exact ⟨rfl, rfl, rfl⟩
    · cases h
  | commit =>
    simp only [step, commitStep] at h
    split at h
    · split at h <;> (obtain ⟨⟨disk, bc⟩, _, h⟩ := bind_ok h; cases h; exact ⟨rfl, rfl, rfl⟩)
    · split at h <;> (obtain ⟨⟨disk, bc⟩, _, h⟩ := bind_ok h; cases h; exact ⟨rfl, rfl, rfl⟩)
    · cases h
      exact ⟨rfl, rfl, rfl⟩
    · cases h
  | crash =>
    cases h
    exact ⟨rfl, rfl, rfl⟩
  | recover =>
    simp only [step, recoverStep] at h
    split at h
    · obtain ⟨⟨bc, lg⟩, hb, h⟩ := bind_ok h
      cases h
      unfold read_head at hb
      obtain ⟨⟨i, bc1⟩, _, hb⟩ := bind_ok hb
      obtain ⟨bc2, _, hb⟩ := bind_ok hb
      cases hb
      exact ⟨rfl, rfl, rfl⟩
    · split at h <;> (obtain ⟨⟨disk, bc⟩, _, h⟩ := bind_ok h; cases h; exact ⟨rfl, rfl, rfl⟩)
    · cases h

lemma serving_commitStep (h : Serving s) (hr : commitStep s = .ok t) : Serving t := by
  unfold commitStep at hr
  split at hr
  · rename_i p k hph
    split at hr
    · obtain ⟨⟨disk, bc⟩, hb, hr⟩ := bind_ok hr
      cases hr
      exact serving_write_log h hph ‹_› hb
    · obtain ⟨⟨disk, bc⟩, hb, hr⟩ := bind_ok hr
      cases hr
      exact serving_write_head h hph ‹_› hb
  · rename_i p k hph
    split at hr
    · obtain ⟨⟨disk, bc⟩, hb, hr⟩ := bind_ok hr
      cases hr
      exact serving_install h hph ‹_› hb
    · obtain ⟨⟨disk, bc⟩, hb, hr⟩ := bind_ok hr
      cases hr
      exact serving_erase h hph ‹_› hb
  · rename_i p hph
    cases hr
    exact serving_committed h hph
  · cases hr

lemma serving_step (h : Serving s) (hserve : s.serving = true)
    (ha : a ≠ .crash) (hr : step s a = .ok t) : Serving t := by
  cases a with
  | begin_op p =>
    simp only [step] at hr
    split at hr
    · obtain ⟨lg, hb, hr⟩ := bind_ok hr
      cases hr
      exact serving_begin_op h (‹_ ∧ _›).2 hb
    · cases hr
  | bread p b =>
    simp only [step] at hr
    split at hr
    · rename_i hc
      obtain ⟨⟨i, bc⟩, hb, hr⟩ := bind_ok hr
      cases hr
      refine serving_bread h hc.2.1 ?_ hb
      unfold Sys.home Home
      omega
    · cases hr
  | modify p i data =>
    simp only [step] at hr
    split at hr
    · rename_i hc
      cases hr
      exact serving_modify h hc.1 hc.2.1 hc.2.2
    · cases hr
  | log_write p i =>
    simp only [step] at hr
    split at hr
    · rename_i hc
      split at hr
      · cases hr
      · rename_i op hop
        obtain ⟨⟨lg, new⟩, hb, hr⟩ := bind_ok hr
        cases hr
        exact serving_log_write h hc.1 hc.2 hop hb
    · cases hr
  | brelse p i =>
    simp only [step] at hr
    split at hr
    · rename_i hc
      obtain ⟨bc, hb, hr⟩ := bind_ok hr
      cases hr
      exact serving_brelse h hc.1 hc.2.1 hc.2.2 hb
    · cases hr
  | end_op p =>
    simp only [step] at hr
    split at hr
    · rename_i hc
      obtain ⟨⟨lg, c⟩, hb, hr⟩ := bind_ok hr
      cases c with
      | true =>
        cases hr
        exact serving_end_op_commit h hc.1 hc.2 hb
      | false =>
        cases hr
        exact serving_end_op h hc.1 hc.2 hb
    · cases hr
  | commit => exact serving_commitStep h hr
  | crash => exact absurd rfl ha
  | recover =>
    simp only [step, recoverStep] at hr
    unfold Sys.serving at hserve
    split at hr
    · simp_all
    · simp_all
    · cases hr

lemma recovering_step (h : Recovering s) (hserve : s.serving = false)
    (ha : a ≠ .crash) (hr : step s a = .ok t) :
    a = .recover ∧ if t.serving then Serving t else Recovering t := by
  have hop : ∀ p, s.opOf p = none := by
    intro p
    simp [Sys.opOf, h.idle.1]
  cases a with
  | begin_op p => simp [step, hserve] at hr
  | bread p b => simp [step, hserve] at hr
  | modify p i data => simp [step, h.unlocked i] at hr
  | log_write p i => simp [step, h.unlocked i] at hr
  | brelse p i => simp [step, h.unlocked i] at hr
  | end_op p => simp [step, hop p] at hr
  | commit =>
    have hp := h.phase
    simp only [step, commitStep] at hr
    split at hr <;> simp_all
  | crash => exact absurd rfl ha
  | recover =>
    refine ⟨rfl, ?_⟩
    simp only [step, recoverStep] at hr
    split at hr
    · obtain ⟨⟨bc, lg⟩, hb, hr⟩ := bind_ok hr
      cases hr
      exact recovering_read_head h hb
    · rename_i k hph
      split at hr
      · obtain ⟨⟨disk, bc⟩, hb, hr⟩ := bind_ok hr
        cases hr
        exact recovering_install h hph ‹_› hb
      · obtain ⟨⟨disk, bc⟩, hb, hr⟩ := bind_ok hr
        cases hr
        exact serving_recovered h hph ‹_› hb
    · cases hr

lemma Inv.durable {dev logstart nlog : Nat} (h : Inv dev logstart nlog s) :
    Durable s ∧ NoSplit s.txns ∧ s.log.dev ≠ 0 := by
  have hm := h.mode
  split at hm
  · have hsize : 0 < s.log.size := by
      have := hm.header.size
      omega
    obtain ⟨L, hs, _⟩ := hm.sees
    exact ⟨hm.durable hsize, (pairwise_append.mp hm.ops.nosplit).1, hs.dev_ne⟩
  · exact ⟨hm.durable, hm.nosplit, hm.sees.dev_ne⟩

lemma Inv.nosplit {dev logstart nlog : Nat} (h : Inv dev logstart nlog s) :
    NoSplit (s.txns ++ [s.cur]) := by
  have hm := h.mode
  split at hm
  · exact hm.ops.nosplit
  · rw [hm.idle.2.1]
    refine pairwise_append.mpr ⟨hm.nosplit, pairwise_singleton _ _, ?_⟩
    intro t _ u hu w _ v hv
    rw [mem_singleton.mp hu] at hv
    cases hv

lemma inv_step {dev logstart nlog : Nat} (h : Inv dev logstart nlog s)
    (hr : step s a = .ok t) : Inv dev logstart nlog t := by
  obtain ⟨h1, h2, h3⟩ := step_geometry hr
  refine ⟨h1.trans h.dev, h2.trans h.start, h3.trans h.size, ?_⟩
  by_cases ha : a = .crash
  · subst ha
    obtain ⟨hd, hns, hdev⟩ := h.durable
    cases hr
    exact recovering_crash hdev hd hns
  · have hm := h.mode
    split at hm
    · rename_i hserve
      have ht := serving_step hm hserve ha hr
      have hts : t.serving = true := by
        have := ht.phase
        unfold PhaseOK at this
        unfold Sys.serving
        split <;> simp_all
      rw [if_pos hts]
      exact ht
    · rename_i hserve
      exact (recovering_step hm (by simpa using hserve) ha hr).2

lemma Runs.trans {s t u : Sys} (h : Runs s t) (h' : Runs t u) : Runs s u := by
  induction h' with
  | refl => exact h
  | next _ hstep ih => exact .next ih hstep

lemma runs_of_foldlM {as : List Act} (h : as.foldlM step s = .ok t) : Runs s t := by
  induction as generalizing s with
  | nil =>
    cases h
    exact .refl _
  | cons a as ih =>
    obtain ⟨u, hu, h⟩ := bind_ok h
    exact (Runs.next (.refl s) hu).trans (ih h)

lemma inv_run {dev logstart nlog : Nat} (hdev : dev ≠ 0) (hsize : 0 < nlog)
    (hclean : headOf (disk logstart) = []) (hrun : Runs (powerOn dev logstart nlog disk) s) :
    Inv dev logstart nlog s := by
  induction hrun with
  | refl => exact ⟨rfl, rfl, rfl, recovering_powerOn hdev hsize hclean⟩
  | next _ hstep ih => exact inv_step ih hstep

/-- Crash safety. However operations interleave and whenever the power fails, no operation
has writes in two transactions, and once a recovery completes, every block outside the log
area holds what it held after a prefix of the transactions since the last recovery. The
prefix has all those whose commit returned. -/
theorem recovery_leaves_a_prefix_of_the_transactions {dev logstart nlog : Nat} {disk : Nat → Bytes}
    (hdev : dev ≠ 0) (hsize : 0 < nlog) (hclean : headOf (disk logstart) = []) {s : Sys}
    (hrun : Runs (powerOn dev logstart nlog disk) s) :
    NoSplit (s.txns ++ [s.cur]) ∧
      ∀ t, s.serving = false → step s .recover = .ok t → t.serving = true →
        ∃ k, s.returned ≤ k ∧ k ≤ s.txns.length ∧
          ∀ b, Home logstart nlog b → t.disk b = after s.start (s.txns.take k) b := by
  have hinv := inv_run hdev hsize hclean hrun
  refine ⟨hinv.nosplit, ?_⟩
  intro t hserve hrec hup
  have hm := hinv.mode
  rw [if_neg (by simp [hserve])] at hm
  obtain ⟨k, h1, h2, hcut⟩ := hm.durable.cut
  refine ⟨k, h1, h2, ?_⟩
  intro b hb
  have hb' : s.home b := by
    unfold Sys.home
    rw [hinv.start, hinv.size]
    exact hb
  rw [← hcut b hb']
  simp only [step, recoverStep] at hrec
  split at hrec
  · obtain ⟨⟨bc, lg⟩, _, hrec⟩ := bind_ok hrec
    cases hrec
    simp [Sys.serving] at hup
  · rename_i j hph
    split at hrec
    · obtain ⟨⟨disk', bc⟩, _, hrec⟩ := bind_ok hrec
      cases hrec
      simp [Sys.serving] at hup
    · obtain ⟨⟨disk', bc⟩, hw, hrec⟩ := bind_ok hrec
      cases hrec
      exact (recovered_write_clean hm hph ‹_› hw).2 b hb'
  · cases hrec

/-- One operation logs block 50 and commits. The power fails before the block is installed,
and fails again when the first recovery has installed it. -/
def cutCommit : List Act :=
  [.recover, .recover, .begin_op 7, .bread 7 50, .modify 7 1 (fun _ => 9), .log_write 7 1,
    .brelse 7 1, .end_op 7, .commit, .commit, .crash, .recover, .recover, .crash, .recover,
    .recover]

theorem recovery_after_a_cut_commit : ∃ s t, Runs (powerOn 1 2 30 fun _ _ => 0) s ∧
    s.serving = false ∧ step s .recover = .ok t ∧ t.serving = true ∧ s.txns.length = 1 ∧
    ∃ k, s.returned ≤ k ∧ k ≤ s.txns.length ∧
      ∀ b, Home 2 30 b → t.disk b = after s.start (s.txns.take k) b := by
  have hdo : ((cutCommit.foldlM step (powerOn 1 2 30 fun _ _ => 0)).bind fun s =>
      (step s .recover).map fun t => (s.serving, t.serving, s.txns.length)).toOption =
        some (false, true, 1) := by
    decide +kernel
  rcases hs : cutCommit.foldlM step (powerOn 1 2 30 fun _ _ => 0) with e | s
  · rw [hs] at hdo
    cases hdo
  · rw [hs] at hdo
    rcases ht : step s .recover with e | t
    · simp [Except.bind, ht, Except.map, Except.toOption] at hdo
    · simp only [Except.bind, ht, Except.map, Except.toOption, Option.some.injEq,
        Prod.mk.injEq] at hdo
      obtain ⟨h1, h2, h3⟩ := hdo
      have hrun := runs_of_foldlM hs
      exact ⟨s, t, hrun, h1, ht, h2, h3,
        (recovery_leaves_a_prefix_of_the_transactions (by decide) (by decide) (by decide)
          hrun).2 t h1 ht h2⟩

end xv6.log
