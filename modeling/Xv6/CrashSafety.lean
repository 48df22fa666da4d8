-- Crash safety of the log: a power failure between any two block writes, and
-- any number of further failures while recovery runs, leave the disk after
-- recovery with the contents after a prefix of the committed transactions.
import Xv6.CommitBodies

open bytes redo_log Function List

namespace xv6.log

open bio

/-! ## Contents after transactions -/

def pairs (ws : List Write) : List (Nat × Bytes) := ws.map fun w => (w.block, w.data)

/-- The contents `d` after the transactions, in order. -/
def after (d : Nat → Bytes) (ts : List (List Write)) : Nat → Bytes := applyW (pairs ts.flatten) d

def Sys.shown (s : Sys) : Nat → Bytes := applyW (pairs s.cur) (after s.start s.txns)

lemma after_snoc (d : Nat → Bytes) (ts : List (List Write)) (t : List Write) :
    after d (ts ++ [t]) = applyW (pairs t) (after d ts) := by
  simp [after, pairs, applyW_append]

variable {b i k o p : Nat} {bc : Bcache} {disk : Nat → Bytes} {lg : Log} {s : Sys}

lemma applyW_pairs_of_not_mem {ws : List Write} (d : Nat → Bytes)
    (h : b ∉ ws.map Write.block) : applyW (pairs ws) d b = d b := by
  apply applyW_of_not_mem
  simpa [pairs, map_map, Function.comp_def] using h

/-! ## The invariant while the kernel serves -/

def Sys.home (s : Sys) (b : Nat) : Prop := Home s.log.start s.log.size b

/-- The blocks whose buffers the log has pinned. `install_trans` unpins them one by one. -/
def Sys.pinned (s : Sys) : List Nat :=
  match s.phase with
  | .install _ tail => s.log.lh.drop tail
  | _ => s.log.lh

def Sys.pins (s : Sys) (b : Nat) : Nat := if b ∈ s.pinned then 1 else 0

/-- Two different transactions share no operation. -/
def NoSplit (ts : List (List Write)) : Prop :=
  ts.Pairwise fun t u => ∀ w ∈ t, ∀ v ∈ u, w.op ≠ v.op

/-- What the phase says about the header on disk, the log blocks and the home blocks. -/
def PhaseOK (s : Sys) : Prop :=
  match s.phase with
  | .up => headOf (s.disk s.log.start) = [] ∧ s.returned = s.txns.length ∧
      (∀ b, s.home b → s.disk b = after s.start s.txns b) ∧
      (∀ b, b ∈ s.log.lh ↔ b ∈ s.cur.map Write.block)
  | .write_log _ tail => headOf (s.disk s.log.start) = [] ∧ ∃ ts t, s.txns = ts ++ [t] ∧
      s.returned = ts.length ∧ (∀ b, s.home b → s.disk b = after s.start ts b) ∧
      (∀ b, b ∈ s.log.lh ↔ b ∈ t.map Write.block) ∧ tail ≤ s.log.lh.length ∧
      ∀ j b, j < tail → s.log.lh[j]? = some b →
        s.disk (s.log.start + j + 1) = after s.start s.txns b
  | .install _ tail => headOf (s.disk s.log.start) = s.log.lh ∧ ∃ ts t, s.txns = ts ++ [t] ∧
      s.returned = ts.length ∧
      (∀ b, s.home b → b ∉ s.log.lh.take tail → s.disk b = after s.start ts b) ∧
      (∀ b ∈ s.log.lh.take tail, s.disk b = after s.start s.txns b) ∧
      (∀ b, b ∈ s.log.lh ↔ b ∈ t.map Write.block) ∧ tail ≤ s.log.lh.length ∧
      ∀ j b, s.log.lh[j]? = some b → s.disk (s.log.start + j + 1) = after s.start s.txns b
  | .committed _ => headOf (s.disk s.log.start) = [] ∧ s.returned = s.txns.length ∧
      s.log.lh = [] ∧ ∀ b, s.home b → s.disk b = after s.start s.txns b
  | _ => False

/-- The header in memory names distinct home blocks and fits the log area. -/
structure HeaderOK (s : Sys) : Prop where
  nodup : s.log.lh.Nodup
  home : ∀ b ∈ s.log.lh, s.home b ∧ b < 2 ^ 32
  size : s.log.lh.length < s.log.size
  logsize : s.log.lh.length ≤ LOGSIZE

/-- The operations that run, and the numbers of all operations since the last recovery. -/
structure OpsOK (s : Sys) : Prop where
  count : s.log.outstanding = s.ops.length
  keys : (s.ops.map Prod.fst).Nodup
  idle : s.phase ≠ .up → s.ops = [] ∧ s.cur = [] ∧ s.log.committing = true
  up : s.phase = .up → s.log.committing = false
  fresh : (∀ x ∈ s.ops, x.2 < s.nops) ∧ ∀ t ∈ s.txns ++ [s.cur], ∀ w ∈ t, w.op < s.nops
  closed : ∀ t ∈ s.txns, ∀ w ∈ t, ∀ x ∈ s.ops, x.2 ≠ w.op
  nosplit : NoSplit (s.txns ++ [s.cur])

/-- The buffers that processes hold. -/
structure HeldOK (s : Sys) : Prop where
  held : ∀ i < NBUF, (s.bc.buf i).lock ≠ none → (s.bc.buf i).valid = true ∧
    (s.bc.buf i).dev = s.log.dev ∧ s.home (s.bc.buf i).blockno ∧ (s.bc.buf i).blockno < 2 ^ 32
  dirty : ∀ i < NBUF, s.dirty i = true → ∃ p, (s.bc.buf i).lock = some p ∧
    p ∈ s.ops.map Prod.fst

structure Serving (s : Sys) : Prop where
  sees : ∃ L, Sees s.log.dev s.pins s.dirty L s.disk s.bc ∧ ∀ b, s.home b → L b = s.shown b
  header : HeaderOK s
  ops : OpsOK s
  held : HeldOK s
  phase : PhaseOK s

/-! ## What the disk holds for a recovery -/

/-- Recovery would give the contents after a prefix of the transactions that has all those
whose commit returned. -/
structure Durable (s : Sys) : Prop where
  nodup : (headOf (s.disk s.log.start)).Nodup
  home : ∀ b ∈ headOf (s.disk s.log.start), s.home b
  size : (headOf (s.disk s.log.start)).length < s.log.size
  cut : ∃ k, s.returned ≤ k ∧ k ≤ s.txns.length ∧
    ∀ b, s.home b → recovered headOf s.log.start s.disk b = after s.start (s.txns.take k) b

lemma durable_of_clean (hsize : 0 < s.log.size)
    (hclean : headOf (s.disk s.log.start) = []) (h1 : s.returned ≤ k)
    (h2 : k ≤ s.txns.length)
    (hdisk : ∀ b, s.home b → s.disk b = after s.start (s.txns.take k) b) : Durable s := by
  refine ⟨by simp [hclean], by simp [hclean], by simpa [hclean] using hsize, k, h1, h2, ?_⟩
  intro b hb
  rw [recovered_of_clean hclean, hdisk b hb]

lemma Serving.durable (h : Serving s) (hsize : 0 < s.log.size) : Durable s := by
  have hp := h.phase
  unfold PhaseOK at hp
  split at hp
  · obtain ⟨hclean, hret, hdisk, _⟩ := hp
    exact durable_of_clean hsize hclean (k := s.txns.length) (by omega) (by omega) (by simpa using hdisk)
  · obtain ⟨hclean, ts, t, ht, hret, hdisk, _⟩ := hp
    refine durable_of_clean hsize hclean (k := ts.length) (by omega) (by simp [ht]) ?_
    simpa [ht] using hdisk
  · obtain ⟨hhead, ts, t, ht, hret, hrest, hdone, hmem, _, hlog⟩ := hp
    refine ⟨by rw [hhead]; exact h.header.nodup, ?_, by rw [hhead]; exact h.header.size,
      s.txns.length, by simp [ht, hret], by omega, ?_⟩
    · rw [hhead]
      exact fun b hb => (h.header.home b hb).1
    · intro b hb
      rw [take_length]
      unfold recovered installed
      rw [hhead]
      by_cases hbl : b ∈ s.log.lh
      · rw [if_pos hbl, ← hlog (s.log.lh.idxOf b) b (by simp [hbl])]
        congr 1
        omega
      · rw [if_neg hbl, hrest b hb (fun hm => hbl (mem_of_mem_take hm)), ht, after_snoc,
          applyW_pairs_of_not_mem _ (fun hm => hbl ((hmem b).mpr hm))]
  · obtain ⟨hclean, hret, _, hdisk⟩ := hp
    exact durable_of_clean hsize hclean (k := s.txns.length) (by omega) (by omega) (by simpa using hdisk)
  · exact hp.elim

/-! ## The invariant while the kernel recovers -/

structure Recovering (s : Sys) : Prop where
  durable : Durable s
  sees : Sees s.log.dev (fun _ => 0) s.dirty s.disk s.disk s.bc
  unlocked : ∀ i, (s.bc.buf i).lock = none
  clean : s.dirty = fun _ => false
  idle : s.ops = [] ∧ s.cur = [] ∧ s.log.outstanding = 0 ∧ s.log.committing = false
  nosplit : NoSplit s.txns
  phase : match s.phase with
    | .boot => True
    | .recover tail => s.log.lh = headOf (s.disk s.log.start) ∧ tail ≤ s.log.lh.length ∧
        ∀ j b, j < tail → s.log.lh[j]? = some b → s.disk b = s.disk (s.log.start + j + 1)
    | _ => False

/-- The invariant of the machine, for a fixed device and log area. -/
structure Inv (dev logstart nlog : Nat) (s : Sys) : Prop where
  dev : s.log.dev = dev
  start : s.log.start = logstart
  size : s.log.size = nlog
  mode : if s.serving then Serving s else Recovering s

/-! ## The steps of the processes -/

lemma opOf_mem (h : s.opOf p = some o) : (p, o) ∈ s.ops := by
  unfold Sys.opOf at h
  rcases hf : s.ops.find? (fun x => x.1 == p) with _ | x
  · simp [hf] at h
  · have h1 := find?_some hf
    have h2 := mem_of_find?_eq_some hf
    simp only [hf, Option.map_some, Option.some.injEq] at h
    simp only [beq_iff_eq] at h1
    rw [← h1, ← h]
    exact h2

lemma opOf_none (h : s.opOf p = none) : p ∉ s.ops.map Prod.fst := by
  unfold Sys.opOf at h
  simp only [Option.map_eq_none_iff, find?_eq_none, beq_iff_eq] at h
  simp only [mem_map, not_exists, not_and]
  exact h

lemma Serving.up_of_op (h : Serving s) (hp : (s.opOf p).isSome) :
    s.phase = .up := by
  by_contra hne
  obtain ⟨o, ho⟩ := Option.isSome_iff_exists.mp hp
  have := opOf_mem ho
  rw [(h.ops.idle hne).1] at this
  cases this

lemma Serving.holds (h : Serving s) (hi : i < NBUF)
    (hl : (s.bc.buf i).lock = some p) :
    Holds s.bc s.log.dev p i (s.bc.buf i).blockno ∧ s.home (s.bc.buf i).blockno ∧
      (s.bc.buf i).blockno < 2 ^ 32 := by
  obtain ⟨h1, h2, h3, h4⟩ := h.held.held i hi (by simp [hl])
  exact ⟨⟨hi, h1, h2, rfl, hl⟩, h3, h4⟩

lemma serving_begin_op (h : Serving s) (hp : s.opOf p = none)
    (hb : begin_op s.log = .ok lg) :
    Serving { s with log := lg, ops := (p, s.nops) :: s.ops, nops := s.nops + 1 } := by
  obtain ⟨hnc, _, rfl⟩ := begin_op_ok hb
  have hup : s.phase = .up := by
    by_contra hne
    rw [(h.ops.idle hne).2.2] at hnc
    cases hnc
  have hph := h.phase
  obtain ⟨hc, hk, _, hu, ⟨hf1, hf2⟩, hcl, hns⟩ := h.ops
  refine ⟨h.sees, { h.header with }, ?_, ?_, ?_⟩
  · refine ⟨by simp [hc], by simpa [hk] using opOf_none hp, fun hne => absurd hup hne, hu, ⟨?_, ?_⟩,
      ?_, hns⟩
    · intro x hx
      rcases mem_cons.mp hx with rfl | hx
      · simp
      · have := hf1 x hx
        dsimp only
        omega
    · intro t ht w hw
      have := hf2 t ht w hw
      dsimp only
      omega
    · intro t ht w hw x hx
      rcases mem_cons.mp hx with rfl | hx
      · have := hf2 t (mem_append_left _ ht) w hw
        omega
      · exact hcl t ht w hw x hx
  · refine ⟨h.held.held, ?_⟩
    intro i hi hd
    obtain ⟨q, h1, h2⟩ := h.held.dirty i hi hd
    exact ⟨q, h1, mem_cons_of_mem _ h2⟩
  · unfold PhaseOK at hph ⊢
    exact hph

lemma serving_bread (h : Serving s) (hb : b < 2 ^ 32)
    (hhome : s.home b) (hr : bread s.disk s.bc p s.log.dev b = .ok (i, bc)) :
    Serving { s with bc } := by
  obtain ⟨L, hs, hL⟩ := h.sees
  obtain ⟨hs', hh, hnd, _, _, hoth⟩ := hs.bread hr
  refine ⟨⟨L, hs', hL⟩, { h.header with },
    { h.ops with }, ?_,
    h.phase⟩
  refine ⟨?_, ?_⟩
  · intro j hj hl
    by_cases hji : j = i
    · subst hji
      exact ⟨hh.valid, hh.dev, by simp only [hh.blockno]; exact ⟨hhome, hb⟩⟩
    · simp only [hoth j hji] at hl ⊢
      exact h.held.held j hj hl
  · intro j hj hd
    by_cases hji : j = i
    · subst hji
      simp only at hd
      rw [hnd] at hd
      cases hd
    · simp only [hoth j hji]
      exact h.held.dirty j hj hd

lemma serving_modify {data : Bytes} (h : Serving s) (hi : i < NBUF)
    (hl : (s.bc.buf i).lock = some p) (hp : (s.opOf p).isSome) :
    Serving { s with bc := s.bc.set i { s.bc.buf i with data },
                     dirty := update s.dirty i true } := by
  obtain ⟨L, hs, hL⟩ := h.sees
  obtain ⟨hh, _, _⟩ := h.holds hi hl
  have hs' : Sees s.log.dev s.pins (update s.dirty i true) L s.disk
      (s.bc.set i { s.bc.buf i with data }) :=
    hs.change hh (hs.refcnt_of_holds hh) (fun _ _ => rfl) (fun _ _ => rfl) (fun _ _ => rfl)
      (hs.clean _) (fun j hj => update_of_ne hj _ _) (fun hd => by simp at hd)
  refine ⟨⟨L, hs', hL⟩, { h.header with },
    { h.ops with },
    ⟨?_, ?_⟩, h.phase⟩
  · intro j hj hlj
    by_cases hji : j = i
    · subst hji
      simp only [set_buf_self] at hlj ⊢
      exact h.held.held j hj hlj
    · simp only [set_buf_ne _ _ hji] at hlj ⊢
      exact h.held.held j hj hlj
  · intro j hj hd
    by_cases hji : j = i
    · subst hji
      obtain ⟨o, ho⟩ := Option.isSome_iff_exists.mp hp
      refine ⟨p, by simpa using hl, mem_map_of_mem (f := Prod.fst) (opOf_mem ho)⟩
    · simp only [update_of_ne hji] at hd
      simp only [set_buf_ne _ _ hji]
      exact h.held.dirty j hj hd

lemma pins_of_not_install (h : ∀ p k, s.phase ≠ .install p k) (b : Nat) :
    s.pins b = if b ∈ s.log.lh then 1 else 0 := by
  unfold Sys.pins Sys.pinned
  split
  · rename_i p k heq
    exact absurd heq (h p k)
  · rfl

lemma pins_up (hup : s.phase = .up) (b : Nat) :
    s.pins b = if b ∈ s.log.lh then 1 else 0 :=
  pins_of_not_install (by simp [hup]) b

lemma shown_snoc (s : Sys) (o b : Nat) (v : Bytes) :
    applyW (pairs (s.cur ++ [⟨o, b, v⟩])) (after s.start s.txns) =
      update s.shown b v := by
  simp only [pairs, map_append, map_cons, map_nil, applyW_snoc]
  rfl

lemma opsOK_log_write (h : OpsOK s) {v : Bytes} (ho : (p, o) ∈ s.ops)
    (hup : s.phase = .up) (hout : lg.outstanding = s.log.outstanding)
    (hcom : lg.committing = s.log.committing) (bc : Bcache) (dirty : Nat → Bool) :
    OpsOK { s with log := lg, bc, dirty, cur := s.cur ++ [⟨o, b, v⟩] } := by
  obtain ⟨hc, hk, _, hu, ⟨hf1, hf2⟩, hcl, hns⟩ := h
  refine ⟨hout.trans hc, hk, fun hne => absurd hup hne, fun _ => hcom.trans (hu hup), ⟨hf1, ?_⟩,
    hcl, ?_⟩
  · intro t ht w hw
    rcases mem_append.mp ht with ht | ht
    · exact hf2 t (mem_append_left _ ht) w hw
    · simp only [mem_singleton] at ht
      subst ht
      rcases mem_append.mp hw with hw | hw
      · exact hf2 s.cur (by simp) w hw
      · simp only [mem_singleton] at hw
        subst hw
        exact hf1 (p, o) ho
  · unfold NoSplit at hns ⊢
    rw [pairwise_append] at hns ⊢
    refine ⟨hns.1, by simp, ?_⟩
    intro t ht u hu' w hw x hx
    simp only [mem_singleton] at hu'
    subst hu'
    rcases mem_append.mp hx with hx | hx
    · exact hns.2.2 t ht s.cur (by simp) w hw x hx
    · simp only [mem_singleton] at hx
      subst hx
      exact (hcl t ht w hw (p, o) ho).symm

lemma serving_log_write {new : Bool} (h : Serving s)
    (hi : i < NBUF) (hl : (s.bc.buf i).lock = some p) (ho : s.opOf p = some o)
    (hr : log_write s.log (s.bc.buf i).blockno = .ok (lg, new)) :
    Serving { s with log := lg, bc := if new then bpin s.bc i else s.bc,
                     dirty := update s.dirty i false,
                     cur := s.cur ++ [⟨o, (s.bc.buf i).blockno, (s.bc.buf i).data⟩] } := by
  obtain ⟨L, hs, hL⟩ := h.sees
  obtain ⟨hh, hhome, hlt⟩ := h.holds hi hl
  have hup := h.up_of_op (by rw [ho]; rfl)
  have hph := h.phase
  obtain ⟨hnd, hhm, hsz, hls⟩ := h.header
  obtain ⟨hlen1, hlen2, _, hcase⟩ := log_write_ok hr
  generalize hb : (s.bc.buf i).blockno = b at *
  generalize hv : (s.bc.buf i).data = v at *
  -- the fields of the log that stay, and the header after the call
  have hlg : lg = { s.log with lh := lg.lh } := by
    rcases hcase with ⟨_, rfl, _⟩ | ⟨_, rfl, _⟩ <;> rfl
  have hmem : ∀ c, c ∈ lg.lh ↔ c ∈ s.log.lh ∨ c = b := by
    rcases hcase with ⟨hm, rfl, _⟩ | ⟨_, rfl, _⟩
    · intro c
      constructor
      · exact .inl
      · rintro (hc | rfl)
        · exact hc
        · exact hm
    · simp
  have hdev : lg.dev = s.log.dev := by rw [hlg]
  have hstart : lg.start = s.log.start := by rw [hlg]
  have hsize : lg.size = s.log.size := by rw [hlg]
  have hhome' : ∀ c, Home lg.start lg.size c ↔ s.home c := by
    intro c
    rw [hstart, hsize]
    rfl
  refine ⟨?_, ?_, ?_, ?_, ?_⟩
  · -- the cache shows the new contents, and pins the block
    refine ⟨update L b v, ?_, ?_⟩
    · have hrefc := hs.refcnt_of_holds hh
      have hbuf : (if new = true then bpin s.bc i else s.bc) =
          s.bc.set i { s.bc.buf i with data := v, refcnt := 2 } := by
        rcases hcase with ⟨hm, _, rfl⟩ | ⟨hm, _, rfl⟩
        · rw [pins_up hup, if_pos hm] at hrefc
          have hsame : { s.bc.buf i with data := v, refcnt := 2 } = s.bc.buf i := by
            rw [← hv, show 2 = (s.bc.buf i).refcnt from hrefc.symm]
          rw [hsame, set_buf_eq]
          rfl
        · rw [pins_up hup, if_neg hm] at hrefc
          simp only [if_true, bpin, hrefc, ← hv]
      rw [hbuf, hdev]
      refine hs.change hh ?_ ?_ (fun c hc => update_of_ne hc _ _) (fun _ _ => rfl) ?_
        (fun j hj => update_of_ne hj _ _) (fun _ => by simp)
      · rw [pins_up (by exact hup), if_pos ((hmem b).mpr (.inr rfl))]
      · intro c hc
        rw [pins_up (by exact hup), pins_up hup]
        simp only [hmem, hc, or_false]
      · intro h0
        rw [pins_up (by exact hup), if_pos ((hmem b).mpr (.inr rfl))] at h0
        cases h0
    · intro c hc
      simp only [Sys.shown, shown_snoc]
      by_cases hcb : c = b
      · subst hcb; simp
      · rw [update_of_ne hcb, update_of_ne hcb]
        exact hL c ((hhome' c).mp hc)
  · refine ⟨?_, ?_, ?_, ?_⟩
    · rcases hcase with ⟨_, rfl, _⟩ | ⟨hm, rfl, _⟩
      · exact hnd
      · dsimp only
        rw [nodup_append]
        refine ⟨hnd, nodup_singleton b, ?_⟩
        intro x hx y hy
        simp only [mem_singleton] at hy
        subst hy
        rintro rfl
        exact hm hx
    · intro c hc
      rcases (hmem c).mp hc with hc | rfl
      · exact ⟨(hhome' c).mpr (hhm c hc).1, (hhm c hc).2⟩
      · exact ⟨(hhome' c).mpr hhome, hlt⟩
    · rcases hcase with ⟨_, rfl, _⟩ | ⟨_, rfl, _⟩
      · exact hsz
      · simp only [length_append, length_singleton]
        omega
    · rcases hcase with ⟨_, rfl, _⟩ | ⟨_, rfl, _⟩
      · exact hls
      · simp only [length_append, length_singleton]
        omega
  · exact opsOK_log_write h.ops (opOf_mem ho) hup (by rw [hlg]) (by rw [hlg]) _ _
  · have hbuf : ∀ j, ((if new = true then bpin s.bc i else s.bc).buf j).lock =
        (s.bc.buf j).lock ∧ ((if new = true then bpin s.bc i else s.bc).buf j).valid =
        (s.bc.buf j).valid ∧ ((if new = true then bpin s.bc i else s.bc).buf j).dev =
        (s.bc.buf j).dev ∧ ((if new = true then bpin s.bc i else s.bc).buf j).blockno =
        (s.bc.buf j).blockno := by
      intro j
      cases new
      · simp
      · by_cases hji : j = i
        · subst hji; simp [bpin]
        · simp [bpin, hji]
    refine ⟨?_, ?_⟩
    · intro j hj hlj
      obtain ⟨h1, h2, h3, h4⟩ := hbuf j
      dsimp only at hlj ⊢
      rw [h1] at hlj
      rw [h2, h3, h4, hdev]
      obtain ⟨h5, h6, h7, h8⟩ := h.held.held j hj hlj
      exact ⟨h5, h6, (hhome' _).mpr h7, h8⟩
    · intro j hj hd
      by_cases hji : j = i
      · subst hji
        simp at hd
      · simp only [update_of_ne hji] at hd
        rw [(hbuf j).1]
        exact h.held.dirty j hj hd
  · unfold PhaseOK at hph ⊢
    simp only [hup] at hph ⊢
    obtain ⟨h1, h2, h3, h4⟩ := hph
    refine ⟨by rw [hstart]; exact h1, h2, fun c hc => h3 c ((hhome' c).mp hc), ?_⟩
    intro c
    rw [hmem, h4]
    simp

lemma serving_brelse (h : Serving s) (hi : i < NBUF)
    (hl : (s.bc.buf i).lock = some p) (hnd : s.dirty i = false)
    (hr : brelse s.bc p i = .ok bc) : Serving { s with bc } := by
  obtain ⟨L, hs, hL⟩ := h.sees
  obtain ⟨hh, _, _⟩ := h.holds hi hl
  obtain ⟨hs', hnl, hoth⟩ := hs.brelse hh hnd hr
  refine ⟨⟨L, hs', hL⟩, { h.header with },
    { h.ops with },
    ⟨?_, ?_⟩, h.phase⟩
  · intro j hj hlj
    by_cases hji : j = i
    · subst hji
      exact absurd hnl hlj
    · simp only [hoth j hji] at hlj ⊢
      exact h.held.held j hj hlj
  · intro j hj hd
    by_cases hji : j = i
    · subst hji
      simp only at hd
      rw [hnd] at hd
      cases hd
    · simp only [hoth j hji]
      exact h.held.dirty j hj hd

lemma dirty_filter (h : HeldOK s)
    (hp : ∀ i < NBUF, (s.bc.buf i).lock = some p → s.dirty i = false) :
    ∀ i < NBUF, s.dirty i = true → ∃ q, (s.bc.buf i).lock = some q ∧
      q ∈ (s.ops.filter fun x => x.1 ≠ p).map Prod.fst := by
  intro i hi hd
  obtain ⟨q, hq, hmem⟩ := h.dirty i hi hd
  have hqp : q ≠ p := by
    rintro rfl
    rw [hp i hi hq] at hd
    cases hd
  obtain ⟨x, hx, rfl⟩ := mem_map.mp hmem
  exact ⟨x.1, hq, mem_map_of_mem (mem_filter.mpr ⟨hx, by simpa using hqp⟩)⟩

section

variable (h : Serving s) (hp : (s.opOf p).isSome)
  (hnd : ∀ i < NBUF, (s.bc.buf i).lock = some p → s.dirty i = false)
include h hp hnd

lemma serving_end_op
    (hr : end_op s.log = .ok (lg, false)) :
    Serving { s with log := lg, ops := s.ops.filter fun x => x.1 ≠ p } := by
  have hup := h.up_of_op hp
  have hph := h.phase
  obtain ⟨o, ho⟩ := Option.isSome_iff_exists.mp hp
  obtain ⟨hc, hk, _, hu, ⟨hf1, hf2⟩, hcl, hns⟩ := h.ops
  obtain ⟨_, ⟨_, hfalse, _⟩ | ⟨_, _, rfl⟩⟩ := end_op_ok hr
  · cases hfalse
  have hkey : p ∈ s.ops.map Prod.fst := mem_map_of_mem (f := Prod.fst) (opOf_mem ho)
  have hlen := filter_fst_length hk hkey
  have hout : s.log.outstanding - 1 = (s.ops.filter fun x => x.1 ≠ p).length := by omega
  refine ⟨h.sees, { h.header with }, ?_,
    ⟨h.held.held, dirty_filter h.held hnd⟩, ?_⟩
  · refine ⟨hout, hk.sublist (filter_sublist.map _), fun hne => absurd hup hne, hu,
      ⟨fun x hx => hf1 x (mem_of_mem_filter hx), hf2⟩, ?_, hns⟩
    intro t ht w hw x hx
    exact hcl t ht w hw x (mem_of_mem_filter hx)
  · unfold PhaseOK at hph ⊢
    exact hph

lemma serving_end_op_commit
    (hr : end_op s.log = .ok (lg, true)) :
    Serving { s with log := lg, ops := s.ops.filter fun x => x.1 ≠ p,
                     txns := s.txns ++ [s.cur], cur := [],
                     phase := if lg.lh = [] then .committed p else .write_log p 0,
                     returned := if lg.lh = [] then s.txns.length + 1 else s.returned } := by
  have hup := h.up_of_op hp
  have hph := h.phase
  obtain ⟨o, ho⟩ := Option.isSome_iff_exists.mp hp
  obtain ⟨hc, hk, _, _, ⟨hf1, hf2⟩, _, hns⟩ := h.ops
  obtain ⟨_, ⟨h0, _, rfl⟩ | ⟨_, hfalse, _⟩⟩ := end_op_ok hr
  swap
  · cases hfalse
  have hkey : p ∈ s.ops.map Prod.fst := mem_map_of_mem (f := Prod.fst) (opOf_mem ho)
  have hlen := filter_fst_length hk hkey
  have hnil : (s.ops.filter fun x => x.1 ≠ p) = [] := length_eq_zero_iff.mp (by omega)
  obtain ⟨L, hs, hL⟩ := h.sees
  have hshown : applyW (pairs s.cur) (after s.start s.txns) = after s.start (s.txns ++ [s.cur]) :=
    (after_snoc _ _ _).symm
  rw [hnil]
  unfold PhaseOK at hph
  simp only [hup] at hph
  obtain ⟨hclean, hret, hdisk, hmem⟩ := hph
  refine ⟨⟨L, ?_, ?_⟩, { h.header with }, ?_, ?_, ?_⟩
  · -- nothing is pinned or unpinned here
    have hpins : s.pins = fun b => if b ∈ s.log.lh then 1 else 0 := funext (pins_up hup)
    rw [hpins] at hs
    convert hs using 1
    funext b
    apply pins_of_not_install
    intro q k
    split <;> simp
  · intro b hb
    rw [hL b hb]
    unfold Sys.shown
    rw [hshown]
    rfl
  · refine ⟨rfl, by simp, ?_, ?_, ⟨by simp, ?_⟩, by simp, ?_⟩
    · intro _
      exact ⟨rfl, rfl, rfl⟩
    · intro hph'
      dsimp only at hph'
      split at hph' <;> cases hph'
    · intro t ht w hw
      rcases mem_append.mp ht with ht | ht
      · exact hf2 t ht w hw
      · simp only [mem_singleton] at ht
        subst ht
        cases hw
    · unfold NoSplit at hns ⊢
      rw [pairwise_append]
      refine ⟨hns, by simp, ?_⟩
      intro t _ u hu w _ v hv
      simp only [mem_singleton] at hu
      subst hu
      cases hv
  · refine ⟨h.held.held, ?_⟩
    intro i hi hd
    obtain ⟨q, _, hq⟩ := dirty_filter h.held hnd i hi hd
    rw [hnil] at hq
    cases hq
  · unfold PhaseOK
    by_cases hlh : s.log.lh = []
    · have hcur : s.cur = [] := by
        rw [← map_eq_nil_iff (f := Write.block)]
        apply eq_nil_iff_forall_not_mem.mpr
        intro b hb
        have := (hmem b).mpr hb
        rw [hlh] at this
        cases this
      simp only [hlh, if_true]
      refine ⟨hclean, by simp, trivial, ?_⟩
      intro b hb
      rw [hdisk b hb, after_snoc, hcur]
      rfl
    · simp only [if_neg hlh]
      refine ⟨hclean, s.txns, s.cur, rfl, hret, hdisk, hmem, Nat.zero_le _, ?_⟩
      intro j b hj
      exact absurd hj (Nat.not_lt_zero j)

end

/-! ## The steps of the commit -/

lemma Serving.commit_frame (h : Serving s) (hne : s.phase ≠ .up)
    (hlocks : LocksKept s.bc bc) (disk : Nat → Bytes) (phase : Phase) (hne' : phase ≠ .up)
    (returned : Nat) (lh : List Nat) :
    OpsOK { s with disk, bc, phase, returned, log := { s.log with lh } } ∧
      HeldOK { s with disk, bc, phase, returned, log := { s.log with lh } } := by
  obtain ⟨hops, hcur, hcom⟩ := h.ops.idle hne
  refine ⟨⟨h.ops.count, h.ops.keys, fun _ => ⟨hops, hcur, hcom⟩, fun hup => absurd hup hne',
    h.ops.fresh, h.ops.closed, h.ops.nosplit⟩, ?_, ?_⟩
  · intro i hi hl
    dsimp only at hl ⊢
    have hsame := hlocks i hl
    rw [hsame] at hl ⊢
    exact h.held.held i hi hl
  · intro i hi hd
    obtain ⟨q, _, hq⟩ := h.held.dirty i hi hd
    rw [hops] at hq
    cases hq

lemma Serving.shown_of_commit (h : Serving s) (hne : s.phase ≠ .up) :
    s.shown = after s.start s.txns := by
  unfold Sys.shown
  rw [(h.ops.idle hne).2.1]
  rfl

lemma getD_of_lt {l : List Nat} (hk : k < l.length) : l.getD k 0 = l[k] := by
  simp [hk]

lemma serving_write_log (h : Serving s)
    (hph : s.phase = .write_log p k) (hk : k < s.log.lh.length)
    (hr : write_log_body s.disk s.bc s.log p k = .ok (disk, bc)) :
    Serving { s with disk, bc, phase := .write_log p (k + 1) } := by
  have hne : s.phase ≠ .up := by simp [hph]
  obtain ⟨L, hs, hL⟩ := h.sees
  obtain ⟨hd, hs', hlocks⟩ := write_log_body_ok hs rfl hr
  have hlt := h.header.size
  have hmem : s.log.lh[k] ∈ s.log.lh := getElem_mem hk
  rw [getD_of_lt hk, hL _ (h.header.home _ hmem).1, h.shown_of_commit hne] at hd hs'
  obtain ⟨hops, hheld⟩ := h.commit_frame hne hlocks disk (.write_log p (k + 1)) (by simp)
    s.returned s.log.lh
  have hout : ∀ b, s.home b → b ≠ s.log.start + k + 1 := by
    intro b hb
    have := hb.ne_of_log (i := k + 1) (by omega)
    omega
  refine ⟨⟨update L (s.log.start + k + 1) (after s.start s.txns s.log.lh[k]), ?_, ?_⟩,
    { h.header with }, hops, hheld, ?_⟩
  · have hpins : s.pins = Sys.pins { s with disk, bc, phase := .write_log p (k + 1) } := by
      funext b
      rw [pins_of_not_install (by simp [hph]), pins_of_not_install (by simp)]
    rw [hpins] at hs'
    exact hs'
  · intro b hb
    rw [update_of_ne (hout b hb), hL b hb]
    rfl
  · have hp := h.phase
    unfold PhaseOK at hp ⊢
    simp only [hph] at hp
    obtain ⟨hclean, ts, t, ht, hret, hdisk, hmem', _, hlog⟩ := hp
    refine ⟨?_, ts, t, ht, hret, ?_, hmem', by dsimp only; omega, ?_⟩
    · dsimp only
      rw [hd, update_of_ne (by omega)]
      exact hclean
    · intro b hb
      dsimp only
      rw [hd, update_of_ne (hout b hb)]
      exact hdisk b hb
    · intro j b hj hjb
      dsimp only at hjb ⊢
      rw [hd]
      by_cases hjk : j = k
      · subst hjk
        rw [update_self]
        rw [getElem?_eq_getElem hk] at hjb
        cases hjb
        rfl
      · rw [update_of_ne (by omega)]
        exact hlog j b (by omega) hjb

lemma serving_write_head (h : Serving s)
    (hph : s.phase = .write_log p k) (hk : ¬ k < s.log.lh.length)
    (hr : write_head s.disk s.bc s.log p = .ok (disk, bc)) :
    Serving { s with disk, bc, phase := .install p 0 } := by
  have hne : s.phase ≠ .up := by simp [hph]
  obtain ⟨L, hs, hL⟩ := h.sees
  obtain ⟨hd, hs', hlocks⟩ := write_head_ok hs rfl hr
  have hlt := h.header.size
  have hls := h.header.logsize
  have hhead : headOf (putHead s.log.lh (L s.log.start)) = s.log.lh := by
    apply headOf_putHead
    · unfold LOGSIZE MAXOPBLOCKS at hls
      omega
    · exact fun x hx => (h.header.home x hx).2
  obtain ⟨hops, hheld⟩ := h.commit_frame hne hlocks disk (.install p 0) (by simp)
    s.returned s.log.lh
  have hout : ∀ b, s.home b → b ≠ s.log.start := by
    intro b hb
    have := hb.ne_of_log (i := 0) (by omega)
    omega
  refine ⟨⟨update L s.log.start (putHead s.log.lh (L s.log.start)), ?_, ?_⟩,
    { h.header with }, hops, hheld, ?_⟩
  · have hpins : s.pins = Sys.pins { s with disk, bc, phase := .install p 0 } := by
      funext b
      rw [pins_of_not_install (by simp [hph])]
      simp [Sys.pins, Sys.pinned]
    rw [hpins] at hs'
    exact hs'
  · intro b hb
    rw [update_of_ne (hout b hb), hL b hb]
    rfl
  · have hp := h.phase
    unfold PhaseOK at hp ⊢
    simp only [hph] at hp
    obtain ⟨_, ts, t, ht, hret, hdisk, hmem', _, hlog⟩ := hp
    refine ⟨?_, ts, t, ht, hret, ?_, by simp, hmem', Nat.zero_le _, ?_⟩
    · dsimp only
      rw [hd, update_self, hhead]
    · intro b hb _
      dsimp only
      rw [hd, update_of_ne (hout b hb)]
      exact hdisk b hb
    · intro j b hjb
      dsimp only at hjb ⊢
      have hj := (List.getElem?_eq_some_iff.mp hjb).1
      rw [hd, update_of_ne (by omega)]
      exact hlog j b (by omega) hjb

lemma drop_succ_mem {l : List Nat} (hnd : l.Nodup) (hk : k < l.length) (b : Nat) :
    b ∈ l.drop (k + 1) ↔ b ∈ l.drop k ∧ b ≠ l[k] := by
  have hcons : l.drop k = l[k] :: l.drop (k + 1) := drop_eq_getElem_cons hk
  have hnd' : (l[k] :: l.drop (k + 1)).Nodup := hcons ▸ hnd.sublist (drop_sublist k l)
  rw [hcons, mem_cons]
  constructor
  · intro hb
    refine ⟨.inr hb, ?_⟩
    rintro rfl
    exact (nodup_cons.mp hnd').1 hb
  · rintro ⟨rfl | hb, hne⟩
    · exact absurd rfl hne
    · exact hb

lemma serving_install (h : Serving s)
    (hph : s.phase = .install p k) (hk : k < s.log.lh.length)
    (hr : install_trans_body false s.disk s.bc s.log p k = .ok (disk, bc)) :
    Serving { s with disk, bc, phase := .install p (k + 1) } := by
  have hne : s.phase ≠ .up := by simp [hph]
  have hp := h.phase
  unfold PhaseOK at hp
  simp only [hph] at hp
  obtain ⟨hhead, ts, t, ht, hret, hrest, hdone, hmem', _, hlog⟩ := hp
  obtain ⟨L, hs, hL⟩ := h.sees
  have hlt := h.header.size
  have hx : s.log.lh[k] ∈ s.log.lh := getElem_mem hk
  have hxhome := (h.header.home _ hx).1
  have hshown := h.shown_of_commit hne
  have hpin : s.pins (s.log.lh.getD k 0) = 1 := by
    rw [getD_of_lt hk]
    unfold Sys.pins Sys.pinned
    simp only [hph]
    rw [if_pos]
    rw [drop_eq_getElem_cons hk]
    exact mem_cons_self
  obtain ⟨hd, hs', hlocks⟩ := install_trans_body_ok hs rfl (fun _ => hpin) hr
  -- the log block holds what the cache shows for the home block
  have hsame : L (s.log.start + k + 1) = L s.log.lh[k] := by
    have hp0 : s.pins (s.log.start + k + 1) = 0 := by
      unfold Sys.pins Sys.pinned
      simp only [hph]
      rw [if_neg]
      intro hm
      have := (h.header.home _ (mem_of_mem_drop hm)).1.ne_of_log (i := k + 1) (by omega)
      omega
    rw [← hs.clean _ hp0, hlog k _ (getElem?_eq_getElem hk), hL _ hxhome, hshown]
  rw [getD_of_lt hk, hsame, hL _ hxhome, hshown] at hd
  rw [getD_of_lt hk, hsame, update_eq_self] at hs'
  obtain ⟨hops, hheld⟩ := h.commit_frame hne hlocks disk (.install p (k + 1)) (by simp)
    s.returned s.log.lh
  have hne0 : s.log.start ≠ s.log.lh[k] := by
    have := hxhome.ne_of_log (i := 0) (by omega)
    omega
  refine ⟨⟨L, ?_, hL⟩, { h.header with }, hops, hheld, ?_⟩
  · have hpins : unpinned false s.pins s.log.lh[k] =
        Sys.pins { s with disk, bc, phase := .install p (k + 1) } := by
      funext b
      unfold unpinned Sys.pins Sys.pinned
      simp only [hph, Bool.false_eq_true, if_false, drop_succ_mem h.header.nodup hk]
      by_cases hb : b = s.log.lh[k]
      · subst hb; simp
      · rw [update_of_ne hb]
        simp [hb]
    rw [hpins] at hs'
    exact hs'
  · unfold PhaseOK
    refine ⟨?_, ts, t, ht, hret, ?_, ?_, hmem', by dsimp only; omega, ?_⟩
    · dsimp only
      rw [hd, update_of_ne hne0]
      exact hhead
    · intro b hb hbt
      dsimp only at hbt ⊢
      rw [take_succ_eq_append_getElem hk, mem_append, mem_singleton, not_or] at hbt
      rw [hd, update_of_ne hbt.2]
      exact hrest b hb hbt.1
    · intro b hb
      dsimp only at hb ⊢
      rw [hd]
      by_cases hbx : b = s.log.lh[k]
      · rw [hbx, update_self]
      · rw [update_of_ne hbx]
        rw [take_succ_eq_append_getElem hk, mem_append, mem_singleton] at hb
        exact hdone b (hb.resolve_right hbx)
    · intro j b hjb
      dsimp only at hjb ⊢
      have hj := (List.getElem?_eq_some_iff.mp hjb).1
      have hnej : s.log.start + j + 1 ≠ s.log.lh[k] := by
        have := hxhome.ne_of_log (i := j + 1) (by omega)
        omega
      rw [hd, update_of_ne hnej]
      exact hlog j b hjb

lemma serving_erase (h : Serving s)
    (hph : s.phase = .install p k) (hk : ¬ k < s.log.lh.length)
    (hr : write_head s.disk s.bc { s.log with lh := [] } p = .ok (disk, bc)) :
    Serving { s with disk, bc, log := { s.log with lh := [] }, phase := .committed p,
                     returned := s.txns.length } := by
  have hne : s.phase ≠ .up := by simp [hph]
  have hp := h.phase
  unfold PhaseOK at hp
  simp only [hph] at hp
  obtain ⟨_, ts, t, ht, _, hrest, hdone, hmem', hle, _⟩ := hp
  obtain ⟨L, hs, hL⟩ := h.sees
  obtain ⟨hd, hs', hlocks⟩ := write_head_ok hs (show { s.log with lh := [] }.dev = _ from rfl) hr
  have hlt := h.header.size
  have hclean : headOf (putHead [] (L s.log.start)) = [] := headOf_putHead _ (by simp) (by simp)
  obtain ⟨hops, hheld⟩ := h.commit_frame hne hlocks disk (.committed p) (by simp)
    s.txns.length []
  have hout : ∀ b, s.home b → b ≠ s.log.start := by
    intro b hb
    have := hb.ne_of_log (i := 0) (by omega)
    omega
  have htake : s.log.lh.take k = s.log.lh := take_of_length_le (by omega)
  refine ⟨⟨update L s.log.start (putHead [] (L s.log.start)), ?_, ?_⟩,
    ⟨by simp, by simp, by dsimp only [length_nil]; omega, by simp⟩, hops, hheld, ?_⟩
  · have hpins : s.pins = Sys.pins { s with disk, bc, log := { s.log with lh := [] },
                                            phase := .committed p, returned := s.txns.length } := by
      funext b
      have hdrop : s.log.lh.drop k = [] := drop_of_length_le (by omega)
      simp [Sys.pins, Sys.pinned, hph, hdrop]
    rw [hpins] at hs'
    exact hs'
  · intro b hb
    rw [update_of_ne (hout b hb), hL b hb]
    rfl
  · unfold PhaseOK
    refine ⟨?_, rfl, rfl, ?_⟩
    · dsimp only
      rw [hd, update_self]
      exact hclean
    · intro b hb
      dsimp only
      rw [hd, update_of_ne (hout b hb)]
      by_cases hbl : b ∈ s.log.lh
      · exact hdone b (by rw [htake]; exact hbl)
      · rw [hrest b hb (by rw [htake]; exact hbl), ht, after_snoc,
          applyW_pairs_of_not_mem _ (fun hm => hbl ((hmem' b).mpr hm))]

lemma serving_committed (h : Serving s) (hph : s.phase = .committed p) :
    Serving { s with log := { s.log with committing := false }, phase := .up } := by
  have hne : s.phase ≠ .up := by simp [hph]
  have hp := h.phase
  unfold PhaseOK at hp
  simp only [hph] at hp
  obtain ⟨hclean, hret, hlh, hdisk⟩ := hp
  obtain ⟨hops, hcur, _⟩ := h.ops.idle hne
  obtain ⟨L, hs, hL⟩ := h.sees
  refine ⟨⟨L, ?_, hL⟩, { h.header with },
    ⟨h.ops.count, h.ops.keys, fun hne => absurd rfl hne, fun _ => rfl, h.ops.fresh, h.ops.closed,
      h.ops.nosplit⟩, ⟨h.held.held, h.held.dirty⟩, ?_⟩
  · have hpins : s.pins = Sys.pins { s with log := { s.log with committing := false },
                                            phase := .up } := by
      funext b
      rw [pins_of_not_install (by simp [hph]), pins_of_not_install (by simp)]
    rw [hpins] at hs
    exact hs
  · refine ⟨hclean, hret, hdisk, ?_⟩
    simp [hlh, hcur]

end xv6.log
