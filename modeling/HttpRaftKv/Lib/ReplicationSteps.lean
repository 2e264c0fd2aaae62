import HttpRaftKv.Lib.Replication
import Mathlib.Logic.Function.Basic

/-!
# The steps of replicated logs

Five kinds of steps change the state: a node moves (its term, its log, what it
has compacted and what it knows to be committed), votes, wins a term with a
majority of votes, extends its log as the leader of a term, or acknowledges a
length of the log of a leader.  Each keeps the invariant under its condition.
-/

namespace HttpRaftKv.Replication

variable {ν ε : Type*} {term : ε → ℕ}

namespace State

variable [Fintype ν] {s s' : State ν ε}

/-! ## What growing keeps -/

/-- The terms, the votes, the acknowledgements and the logs of the leaders
only grow, and a leader adds entries of its own term. -/
structure Extends (term : ε → ℕ) (s s' : State ν ε) : Prop where
  cur_le : ∀ p, s.cur p ≤ s'.cur p
  lead : ∀ u l, s.lead u = some l → ∃ r, s'.lead u = some (l ++ r) ∧ ∀ e ∈ r, term e = u
  vote : ∀ p u l, s.vote p u = some l → s'.vote p u = some l
  ack : ∀ p c m, s.ack p c m → s'.ack p c m

omit [Fintype ν] in
theorem Extends.refl (s : State ν ε) : Extends term s s where
  cur_le := fun _ ↦ Nat.le_refl _
  lead := fun _ l hl ↦ ⟨[], by rw [List.append_nil, hl], fun _ he ↦ absurd he List.not_mem_nil⟩
  vote := fun _ _ _ hv ↦ hv
  ack := fun _ _ _ ha ↦ ha

omit [Fintype ν] in
theorem Extends.trans {s'' : State ν ε} (h : Extends term s s') (h' : Extends term s' s'') :
    Extends term s s'' := by
  refine ⟨fun p ↦ (h.cur_le p).trans (h'.cur_le p), fun u l hl ↦ ?_,
    fun p u l hv ↦ h'.vote p u l (h.vote p u l hv), fun p c m ha ↦ h'.ack p c m (h.ack p c m ha)⟩
  obtain ⟨r, hr, hterm⟩ := h.lead u l hl
  obtain ⟨r', hr', hterm'⟩ := h'.lead u _ hr
  refine ⟨r ++ r', by rw [hr', List.append_assoc], fun e he ↦ ?_⟩
  exact (List.mem_append.mp he).elim (hterm e) (hterm' e)

/-- Everything that belongs to a node other than `p` is the same. -/
structure Apart (p : ν) (s s' : State ν ε) : Prop where
  cur : ∀ q, q ≠ p → s'.cur q = s.cur q
  log : ∀ q, q ≠ p → s'.log q = s.log q
  base : ∀ q, q ≠ p → s'.base q = s.base q
  commit : ∀ q, q ≠ p → s'.commit q = s.commit q
  vote : ∀ q, q ≠ p → s'.vote q = s.vote q

omit [Fintype ν] in
/-- No node has changed. -/
theorem Apart.of_eq {p : ν} (hcur : s'.cur = s.cur) (hlog : s'.log = s.log)
    (hbase : s'.base = s.base) (hcommit : s'.commit = s.commit) (hvote : s'.vote = s.vote) :
    Apart p s s' where
  cur := fun _ _ ↦ by rw [hcur]
  log := fun _ _ ↦ by rw [hlog]
  base := fun _ _ ↦ by rw [hbase]
  commit := fun _ _ ↦ by rw [hcommit]
  vote := fun _ _ ↦ by rw [hvote]

omit [Fintype ν] in
theorem Apart.trans {p : ν} {s'' : State ν ε} (h : Apart p s s') (h' : Apart p s' s'') :
    Apart p s s'' where
  cur := fun q hq ↦ (h'.cur q hq).trans (h.cur q hq)
  log := fun q hq ↦ (h'.log q hq).trans (h.log q hq)
  base := fun q hq ↦ (h'.base q hq).trans (h.base q hq)
  commit := fun q hq ↦ (h'.commit q hq).trans (h.commit q hq)
  vote := fun q hq ↦ (h'.vote q hq).trans (h.vote q hq)

theorem Fixed.mono {t t' m m' : ℕ} {l : List ε} (h : s.Fixed t m l) (ht : t ≤ t')
    (hm : m' ≤ m) : s.Fixed t' m' l := by
  rcases h with rfl | ⟨c, k, lc, hct, hmk, hc, hlc, hagree⟩
  · exact .inl (Nat.le_zero.mp hm)
  · exact .inr ⟨c, k, lc, hct.trans ht, hm.trans hmk, hc, hlc, hagree.mono hm⟩

section grows

variable (hext : Extends term s s')

include hext

theorem Committed.grow {c m : ℕ} (h : s.Committed c m) : s'.Committed c m := by
  obtain ⟨q, hq, hall⟩ := h
  exact ⟨q, hq, fun p hp ↦ hext.ack p c m (hall p hp)⟩

theorem Chosen.grow {u : ℕ} {l : List ε} (h : s.Chosen u l) : s'.Chosen u l := by
  obtain ⟨q, hq, hall⟩ := h
  exact ⟨q, hq, fun p hp ↦ hext.vote p u l (hall p hp)⟩

theorem Fixed.grow {t t' m : ℕ} {l : List ε} (h : s.Fixed t m l) (ht : t ≤ t') :
    s'.Fixed t' m l := by
  rcases h with rfl | ⟨c, k, lc, hct, hmk, hc, hlc, hagree⟩
  · exact .inl rfl
  · obtain ⟨r, hlc', -⟩ := hext.lead c lc hlc
    exact .inr ⟨c, k, lc ++ r, hct.trans ht, hmk, hc.grow hext, hlc',
      hagree.prefix_right (List.prefix_append lc r)⟩

omit [Fintype ν] in
theorem Stored.grow {t t' b : ℕ} {l : List ε} (h : s.Stored term t b l) (ht : t ≤ t') :
    s'.Stored term t' b l := by
  intro k e hbk hk
  obtain ⟨hte, lw, hlw, hget⟩ := h k e hbk hk
  obtain ⟨r, hlw', -⟩ := hext.lead _ lw hlw
  refine ⟨hte.trans ht, lw ++ r, hlw', fun j hbj hjk ↦ ?_⟩
  have hlt : k < lw.length := by
    have := hget k hbk le_rfl
    rw [hk] at this
    exact (List.getElem?_eq_some_iff.mp this.symm).1
  rw [hget j hbj hjk, List.getElem?_append_left (by omega)]

omit [Fintype ν] in
theorem Broken.grow {c m t t' : ℕ} {lc r : List ε} (h : s.Broken c m lc t) (ht : t ≤ t')
    (hm : m ≤ lc.length) (hlc : ∀ e ∈ lc, term e ≤ c) : s'.Broken c m (lc ++ r) t' := by
  obtain ⟨w, lw, hcw, hwt, hlw, hnot⟩ := h
  obtain ⟨rw', hlw', hterm⟩ := hext.lead w lw hlw
  refine ⟨w, lw ++ rw', hcw, hwt.trans_le ht, hlw', fun hagree ↦ hnot ?_⟩
  have hlc' : Agree m (lc ++ r) lc :=
    ((Agree.refl hm).prefix_right (List.prefix_append lc r)).symm
  have hagree := hagree.trans hlc'
  -- an entry that the later leader has added is not in the log of the earlier one
  have hlen : m ≤ lw.length := by
    by_contra hshort
    have hlt : lw.length < (lw ++ rw').length := by
      have := hagree.le_left
      omega
    have hget := hagree.getElem? lw.length (by omega)
    rw [List.getElem?_eq_getElem hlt] at hget
    have hmem : (lw ++ rw')[lw.length] ∈ rw' := by simp
    have hle := hlc _ (List.mem_of_getElem? hget.symm)
    rw [hterm _ hmem] at hle
    omega
  exact ((Agree.refl hlen).prefix_right (List.prefix_append lw rw')).trans hagree

theorem NodeInv.grow {p : ν} (h : s.NodeInv term p) (hlog : s'.log p = s.log p)
    (hbase : s'.base p = s.base p) (hcommit : s'.commit p = s.commit p) : s'.NodeInv term p where
  fixed := by
    rw [hlog, hcommit]
    exact h.fixed.grow hext (hext.cur_le p)
  base_le := by
    rw [hbase, hcommit]
    exact h.base_le
  commit_le := by
    rw [hlog, hcommit]
    exact h.commit_le
  stored := by
    rw [hlog, hbase]
    exact h.stored.grow hext (hext.cur_le p)

theorem LeadInv.grow {u : ℕ} {l : List ε} (h : s.LeadInv term u l) : s'.LeadInv term u l where
  pos := h.pos
  sorted := h.sorted
  term_le := h.term_le
  matched := by
    intro k e hk
    obtain ⟨lw, hlw, hagree⟩ := h.matched k e hk
    obtain ⟨r, hlw', -⟩ := hext.lead _ lw hlw
    exact ⟨lw ++ r, hlw', hagree.prefix_right (List.prefix_append lw r)⟩
  chosen := by
    obtain ⟨l₀, hpre, hchosen⟩ := h.chosen
    exact ⟨l₀, hpre, hchosen.grow hext⟩

theorem VoteInv.grow {p : ν} {u : ℕ} {l : List ε} (h : s.VoteInv term p u l) :
    s'.VoteInv term p u l where
  le_cur := h.le_cur.trans (hext.cur_le p)
  log := by
    obtain ⟨t, b, htu, hb, hstored, hfixed⟩ := h.log
    exact ⟨t, b, htu, hb, hstored.grow hext le_rfl, hfixed.grow hext le_rfl⟩

omit [Fintype ν] in
theorem AckInv.grow {p : ν} {c m : ℕ} (h : s.AckInv term p c m)
    (hlead : ∀ l, s.lead c = some l → ∀ e ∈ l, term e ≤ c) (hlog : s'.log p = s.log p) :
    s'.AckInv term p c m where
  le_cur := h.le_cur.trans (hext.cur_le p)
  held := by
    obtain ⟨lc, hlc, hends, hheld⟩ := h.held
    obtain ⟨r, hlc', -⟩ := hext.lead c lc hlc
    have hpre := List.prefix_append lc r
    refine ⟨lc ++ r, hlc', hends.prefix hpre, ?_⟩
    rw [hlog]
    rcases hheld with ⟨hagree, hlast⟩ | hbroken
    · exact .inl ⟨hagree.prefix_right hpre, hlast⟩
    · exact .inr (hbroken.grow hext (Nat.succ_le_succ (hext.cur_le p)) hends.le_length
        (hlead lc hlc))

omit [Fintype ν] in
theorem VoteAckInv.grow {u c m : ℕ} {l lc : List ε} (h : s.VoteAckInv term u l c m)
    (hlc : s.lead c = some lc) (hm : m ≤ lc.length) (hterm : ∀ e ∈ lc, term e ≤ c) :
    s'.VoteAckInv term u l c m := by
  intro hcu lc' hlc'
  obtain ⟨r, hr, -⟩ := hext.lead c lc hlc
  rw [hlc'] at hr
  cases Option.some.inj hr
  exact (h hcu lc hlc).imp_right fun hbroken ↦ hbroken.grow hext le_rfl hm hterm

end grows

/-- What a step that only grows the state has to show: the nodes whose log has
moved, the logs of leaders, the votes and the acknowledgements that are new. -/
theorem Inv.grow (h : s.Inv term) (hext : Extends term s s')
    (hnode : ∀ p, s'.log p = s.log p ∧ s'.base p = s.base p ∧ s'.commit p = s.commit p ∨
      s'.NodeInv term p ∧ ∀ c m, s.ack p c m → s'.AckInv term p c m)
    (hlead : ∀ u l, s'.lead u = some l → s.lead u = some l ∨ s'.LeadInv term u l)
    (hvote : ∀ p u l, s'.vote p u = some l → s.vote p u = some l ∨ s'.VoteInv term p u l ∧
      ∀ c m, s'.ack p c m → s'.VoteAckInv term u l c m)
    (hack : ∀ p c m, s'.ack p c m → s.ack p c m ∨ s'.AckInv term p c m ∧
      ∀ u l, s.vote p u = some l → s'.VoteAckInv term u l c m) : s'.Inv term where
  node := by
    intro p
    rcases hnode p with ⟨hlog, hbase, hcommit⟩ | ⟨hinv, -⟩
    · exact (h.node p).grow hext hlog hbase hcommit
    · exact hinv
  leader := by
    intro u l hl
    rcases hlead u l hl with hold | hnew
    · exact (h.leader u l hold).grow hext
    · exact hnew
  voted := by
    intro p u l hl
    rcases hvote p u l hl with hold | ⟨hnew, -⟩
    · exact (h.voted p u l hold).grow hext
    · exact hnew
  acked := by
    intro p c m hm
    rcases hack p c m hm with hold | ⟨hnew, -⟩
    · rcases hnode p with ⟨hlog, -, -⟩ | ⟨-, hmoved⟩
      · exact (h.acked p c m hold).grow hext (fun l hl ↦ (h.leader c l hl).term_le) hlog
      · exact hmoved c m hold
    · exact hnew
  votedAcked := by
    intro p u l c m hl hm
    rcases hvote p u l hl with hvoted | ⟨-, hnew⟩
    · rcases hack p c m hm with hacked | ⟨-, hnew⟩
      · obtain ⟨lc, hlc, hends, -⟩ := (h.acked p c m hacked).held
        exact (h.votedAcked p u l c m hvoted hacked).grow hext hlc hends.le_length
          (h.leader c lc hlc).term_le
      · exact hnew u l hvoted
    · exact hnew c m hm

/-! ## Moving a node -/

section steps

variable [DecidableEq ν]

def move (s : State ν ε) (p : ν) (t : ℕ) (l : List ε) (b m : ℕ) : State ν ε :=
  { s with
    cur := Function.update s.cur p t
    log := Function.update s.log p l
    base := Function.update s.base p b
    commit := Function.update s.commit p m }

omit [Fintype ν] in
theorem extends_move {p : ν} {t b m : ℕ} {l : List ε} (hcur : s.cur p ≤ t) :
    Extends term s (s.move p t l b m) := by
  refine ⟨?_, fun u l hl ↦ ⟨[], by simpa [State.move] using hl, by simp⟩,
    fun _ _ _ hv ↦ hv, fun _ _ _ ha ↦ ha⟩
  exact (Function.forall_update_iff s.cur fun q t' ↦ s.cur q ≤ t').mpr ⟨hcur, fun _ _ ↦ le_rfl⟩

omit [Fintype ν] in
theorem apart_move {p : ν} {t b m : ℕ} {l : List ε} : Apart p s (s.move p t l b m) := by
  refine ⟨?_, ?_, ?_, ?_, fun _ _ ↦ rfl⟩ <;>
    exact fun q hq ↦ Function.update_of_ne hq _ _

theorem Inv.move (h : s.Inv term) {p : ν} {t b m : ℕ} {l : List ε} (hcur : s.cur p ≤ t)
    (hfixed : s.Fixed t m l) (hbm : b ≤ m) (hml : m ≤ l.length) (hstored : s.Stored term t b l)
    (hheld : ∀ c k lc, s.ack p c k → s.lead c = some lc → EndsIn term c k lc →
      Agree k (s.log p) lc → c ≤ lastTerm term (s.log p) →
      Agree k l lc ∧ c ≤ lastTerm term l ∨ s.Broken c k lc (t + 1)) :
    (s.move p t l b m).Inv term := by
  refine h.grow (extends_move hcur) ?_ (fun _ _ hl ↦ .inl hl) (fun _ _ _ hv ↦ .inl hv)
    (fun _ _ _ ha ↦ .inl ha)
  intro q
  by_cases hq : q = p
  · subst hq
    refine .inr ⟨⟨?_, ?_, ?_, ?_⟩, fun c k hack ↦ ⟨?_, ?_⟩⟩
    · simp only [State.move, Function.update_self]
      exact hfixed
    · simpa [State.move] using hbm
    · simpa [State.move] using hml
    · simp only [State.move, Function.update_self]
      exact hstored
    · simpa [State.move] using (h.acked q c k hack).le_cur.trans hcur
    · obtain ⟨lc, hlc, hends, hor⟩ := (h.acked q c k hack).held
      refine ⟨lc, hlc, hends, ?_⟩
      simp only [State.move, Function.update_self]
      rcases hor with ⟨hagree, hlast⟩ | ⟨w, lw, hcw, hwt, hlw, hnot⟩
      · exact hheld c k lc hack hlc hends hagree hlast
      · exact .inr ⟨w, lw, hcw, hwt.trans_le (Nat.succ_le_succ hcur), hlw, hnot⟩
  · exact .inl (by simp [State.move, hq])

/-- A node that keeps its log may raise its term, compact what is committed and
learn that more is. -/
theorem Inv.keep (h : s.Inv term) {p : ν} {t b m : ℕ} (hcur : s.cur p ≤ t)
    (hfixed : s.Fixed t m (s.log p)) (hb : s.base p ≤ b) (hbm : b ≤ m)
    (hml : m ≤ (s.log p).length) : (s.move p t (s.log p) b m).Inv term := by
  refine h.move hcur hfixed hbm hml ?_ fun c k lc _ _ _ hagree hlast ↦ .inl ⟨hagree, hlast⟩
  intro k e hbk hk
  obtain ⟨hte, lw, hlw, hget⟩ := (h.node p).stored k e (hb.trans hbk) hk
  exact ⟨hte.trans hcur, lw, hlw, fun j hbj hjk ↦ hget j (hb.trans hbj) hjk⟩

omit [DecidableEq ν] in
/-- The last term of a log behind an entry that a leader has. -/
theorem LeadInv.le_lastTerm {w c m k : ℕ} {lw : List ε} (h : s.LeadInv term w lw)
    (hends : EndsIn term c m lw) (hmk : m ≤ k) (hk : k ≤ lw.length) :
    c ≤ lastTerm term (lw.take k) := by
  obtain ⟨j, e, rfl, hj, rfl⟩ := hends
  rcases eq_nil_or_lastTerm term (lw.take k) with hnil | ⟨i, e', hlen, hi, hlast⟩
  · have := congrArg List.length hnil
    simp only [List.length_take, List.length_nil] at this
    omega
  · simp only [List.length_take] at hlen
    rw [List.getElem?_take_of_lt (by omega)] at hi
    rw [hlast]
    exact h.sorted_getElem? (by omega) hj hi

/-- A node takes over the log of a leader up to a length not below its own. -/
theorem Inv.accept (h : s.Inv term) {p : ν} {u k : ℕ} {lu : List ε} (hlu : s.lead u = some lu)
    (hcur : s.cur p ≤ u) (hlong : (s.log p).length ≤ k) (hk : k ≤ lu.length) :
    (s.move p u (lu.take k) (s.base p) (s.commit p)).Inv term := by
  have hnode := h.node p
  have hleader := h.leader u lu hlu
  have htake : Agree k (lu.take k) lu := .take hk
  refine h.move hcur ?_ hnode.base_le ?_ ?_ ?_
  · rcases hnode.fixed with hzero | ⟨c, m, lc, hct, hm, hc, hlc, hagree⟩
    · exact .inl hzero
    · have hfull := (h.lead_agree (hct.trans hcur) hc hlc hlu).mono hm
      exact .inr ⟨c, m, lc, hct.trans hcur, hm, hc, hlc,
        (htake.mono (hnode.commit_le.trans hlong)).trans hfull⟩
  · rw [List.length_take, Nat.min_eq_left hk]
    exact hnode.commit_le.trans hlong
  · intro j e _ hj
    have hjk : j < k := by
      have := (List.getElem?_eq_some_iff.mp hj).1
      rw [List.length_take] at this
      omega
    have hj' : lu[j]? = some e := by rw [← htake.getElem? j hjk, hj]
    obtain ⟨lw, hlw, hagree⟩ := hleader.matched j e hj'
    refine ⟨hleader.getElem?_le hj', lw, hlw, fun i _ hij ↦ ?_⟩
    rw [htake.getElem? i (by omega), hagree.getElem? i (by omega)]
  · intro c m lc hack hlc hends hagree hlast
    have hcu : c ≤ u := (h.acked p c m hack).le_cur.trans hcur
    have hmk : m ≤ k := hagree.le_left.trans hlong
    by_cases hsame : Agree m lu lc
    · refine .inl ⟨(htake.mono hmk).trans hsame, hleader.le_lastTerm ?_ hmk hk⟩
      obtain ⟨j, e, rfl, hj, hterm⟩ := hends
      exact ⟨j, e, rfl, by rw [hsame.getElem? j (Nat.lt_succ_self j), hj], hterm⟩
    · rcases hcu.eq_or_lt with rfl | hlt
      · rw [hlc] at hlu
        cases Option.some.inj hlu
        exact absurd (Agree.refl hends.le_length) hsame
      · exact .inr ⟨u, lu, hlt, Nat.lt_succ_self u, hlu, hsame⟩

/-- A node installs a committed prefix and keeps what it has behind it. -/
theorem Inv.install (h : s.Inv term) {p : ν} {t c m k : ℕ} {lc : List ε} (hcur : s.cur p ≤ t)
    (hct : c ≤ t) (hc : s.Committed c m) (hlc : s.lead c = some lc) (hk : k ≤ m)
    (hbase : s.base p ≤ k) :
    (s.move p t (lc.take k ++ (s.log p).drop k) k (max (s.commit p) k)).Inv term := by
  have hnode := h.node p
  have hleader := h.leader c lc hlc
  have hmlc : m ≤ lc.length := by
    obtain ⟨lc', hlc', hends⟩ := h.committed_lead hc
    rw [hlc] at hlc'
    cases Option.some.inj hlc'
    exact hends.le_length
  have hklc : k ≤ lc.length := hk.trans hmlc
  -- the new log position by position
  have hlow : Agree k (lc.take k ++ (s.log p).drop k) lc :=
    (Agree.take hklc).prefix_left (List.prefix_append _ _)
  have hhigh : ∀ j, k ≤ j → (lc.take k ++ (s.log p).drop k)[j]? = (s.log p)[j]? := by
    intro j hj
    have hlen : (lc.take k).length = k := by simp [hklc]
    rw [List.getElem?_append_right (by omega), hlen, List.getElem?_drop]
    congr 1
    omega
  have hlength : (lc.take k ++ (s.log p).drop k).length = max (s.log p).length k := by
    simp only [List.length_append, List.length_take, List.length_drop]
    omega
  have hcommit := hnode.commit_le
  -- a log that agrees with the old one and with the snapshot agrees with the new one
  have hglue : ∀ {j lw}, Agree j (s.log p) lw → Agree (min j k) lc lw →
      Agree j (lc.take k ++ (s.log p).drop k) lw := by
    intro j lw hold hsnap
    refine ⟨by have := hold.le_left; omega, hold.le_right, fun i hi ↦ ?_⟩
    by_cases hik : i < k
    · rw [hlow.getElem? i hik, hsnap.getElem? i (by omega)]
    · rw [hhigh i (by omega), hold.getElem? i hi]
  refine h.move hcur ?_ (le_max_right _ _) (by omega) ?_ ?_
  · by_cases hle : s.commit p ≤ k
    · rw [Nat.max_eq_right hle]
      exact .inr ⟨c, m, lc, hct, hk, hc, hlc, hlow⟩
    · rw [Nat.max_eq_left (by omega)]
      rcases hnode.fixed with hzero | ⟨c', m', lc', hct', hm', hc', hlc', hagree⟩
      · omega
      · refine .inr ⟨c', m', lc', hct'.trans hcur, hm', hc', hlc', hglue hagree ?_⟩
        have hle' := hagree.le_right
        exact ⟨by omega, by omega, fun i hi ↦
          h.committed_agree hc hlc hc' hlc' (by omega) (by omega)⟩
  · intro j e hkj hj
    rw [hhigh j hkj] at hj
    obtain ⟨hte, lw, hlw, hget⟩ := hnode.stored j e (hbase.trans hkj) hj
    refine ⟨hte.trans hcur, lw, hlw, fun i hki hij ↦ ?_⟩
    rw [hhigh i hki, hget i (hbase.trans hki) hij]
  · intro c' m' lc' hack hlc' hends hagree hlast
    have hc't := (h.acked p c' m' hack).le_cur.trans hcur
    by_cases hsnap : Agree (min m' k) lc lc'
    · have hnew := hglue hagree hsnap
      refine .inl ⟨hnew, ?_⟩
      by_cases hshort : (s.log p).length ≤ k
      · -- the new log is the snapshot
        rw [List.drop_eq_nil_of_le hshort, List.append_nil] at hnew ⊢
        refine hleader.le_lastTerm ?_ (hagree.le_left.trans hshort) hklc
        obtain ⟨j, e, rfl, hj, hterm⟩ := hends
        have hle := hnew.le_left
        rw [List.length_take] at hle
        refine ⟨j, e, rfl, ?_, hterm⟩
        rw [hsnap.getElem? j (by omega), hj]
      · have hdrop : (s.log p).drop k ≠ [] := by
          intro hnil
          have := congrArg List.length hnil
          simp only [List.length_drop, List.length_nil] at this
          omega
        have hsame : lastTerm term (lc.take k ++ (s.log p).drop k) =
            lastTerm term (s.log p) := by
          unfold lastTerm
          rw [List.getLast?_append_of_ne_nil _ hdrop, List.getLast?_drop, if_neg hshort]
        rw [hsame]
        exact hlast
    · -- the snapshot comes from a later leader that has departed
      have hm'lc := hends.le_length
      rcases le_or_gt c c' with hle | hlt
      · refine absurd ?_ hsnap
        exact ((h.lead_agree hle hc hlc hlc').mono (by omega)).symm
      · refine .inr ⟨c, lc, hlt, by omega, hlc, fun hall ↦ hsnap (hall.mono (min_le_left _ _))⟩

/-! ## Votes, wins, entries and acknowledgements -/

def addVote (s : State ν ε) (p : ν) (u : ℕ) (l : List ε) : State ν ε :=
  { s with vote := Function.update s.vote p (Function.update (s.vote p) u (some l)) }

omit [Fintype ν] in
theorem addVote_eq_some {p q : ν} {u w : ℕ} {l l' : List ε} :
    (s.addVote p u l).vote q w = some l' ↔
      q = p ∧ w = u ∧ l' = l ∨ ¬ (q = p ∧ w = u) ∧ s.vote q w = some l' := by
  by_cases hq : q = p
  · subst hq
    by_cases hw : w = u
    · subst hw
      simp [addVote, eq_comm]
    · simp [addVote, hw]
  · simp [addVote, hq]

omit [Fintype ν] in
theorem extends_addVote {p : ν} {u : ℕ} {l : List ε} (hnone : s.vote p u = none) :
    Extends term s (s.addVote p u l) := by
  refine ⟨fun _ ↦ le_rfl, fun v l' hl ↦ ⟨[], by simpa [State.addVote] using hl, by simp⟩,
    fun q v l' hv ↦ addVote_eq_some.mpr (.inr ⟨?_, hv⟩), fun _ _ _ ha ↦ ha⟩
  rintro ⟨rfl, rfl⟩
  rw [hnone] at hv
  cases hv

/-- A node votes, in its own term that has no leader yet, for a log that is not
behind its own. -/
theorem Inv.addVote (h : s.Inv term) {p : ν} {u : ℕ} {l : List ε} (hcur : s.cur p = u)
    (hlead : s.lead u = none) (hnone : s.vote p u = none)
    (hlog : ∃ t b, t < u ∧ b ≤ l.length ∧ s.Stored term t b l ∧ s.Fixed t b l)
    (hup : lastTerm term (s.log p) < lastTerm term l ∨
      lastTerm term l = lastTerm term (s.log p) ∧ (s.log p).length ≤ l.length) :
    (s.addVote p u l).Inv term := by
  refine h.grow (extends_addVote hnone) (fun _ ↦ .inl ⟨rfl, rfl, rfl⟩) (fun _ _ hl ↦ .inl hl) ?_
    (fun _ _ _ ha ↦ .inl ha)
  intro q v l' hv
  rcases addVote_eq_some.mp hv with ⟨rfl, rfl, rfl⟩ | ⟨-, hold⟩
  · refine .inr ⟨⟨hcur.ge, hlog⟩, fun c m hack hcv lc hlc ↦ ?_⟩
    obtain ⟨lc', hlc', hends, hheld⟩ := (h.acked q c m hack).held
    have hsame : lc' = lc := Option.some.inj (hlc'.symm.trans hlc)
    subst hsame
    rcases hheld with ⟨hagree, hlast⟩ | ⟨w, lw, hcw, hwt, hlw, hnot⟩
    · refine .inl ?_
      have := hagree.le_left
      omega
    · refine .inr ⟨w, lw, hcw, ?_, hlw, hnot⟩
      have hne : w ≠ v := by
        rintro rfl
        rw [hlead] at hlw
        cases hlw
      omega
  · exact .inl hold

/-- A vote is remembered only as long as its term has no leader. -/
def castVote (s : State ν ε) (p : ν) (u : ℕ) (l : List ε) : State ν ε :=
  match s.lead u with
  | none => s.addVote p u l
  | some _ => s

section castVote

variable {p : ν} {u : ℕ} {l : List ε}

omit [Fintype ν] in
theorem castVote_of_none (h : s.lead u = none) : s.castVote p u l = s.addVote p u l := by
  simp [castVote, h]

omit [Fintype ν] in
theorem castVote_of_some {lu : List ε} (h : s.lead u = some lu) : s.castVote p u l = s := by
  simp [castVote, h]

omit [Fintype ν] in
theorem castVote_cases (s : State ν ε) (p : ν) (u : ℕ) (l : List ε) :
    s.lead u = none ∧ s.castVote p u l = s.addVote p u l ∨
      (∃ lu, s.lead u = some lu) ∧ s.castVote p u l = s := by
  cases hu : s.lead u with
  | none => exact .inl ⟨rfl, castVote_of_none hu⟩
  | some lu => exact .inr ⟨⟨lu, rfl⟩, castVote_of_some hu⟩

omit [Fintype ν] in
@[simp] theorem castVote_lead : (s.castVote p u l).lead = s.lead := by
  unfold castVote; split <;> rfl

omit [Fintype ν] in
@[simp] theorem castVote_cur : (s.castVote p u l).cur = s.cur := by
  unfold castVote; split <;> rfl

omit [Fintype ν] in
@[simp] theorem castVote_log : (s.castVote p u l).log = s.log := by
  unfold castVote; split <;> rfl

omit [Fintype ν] in
@[simp] theorem castVote_base : (s.castVote p u l).base = s.base := by
  unfold castVote; split <;> rfl

omit [Fintype ν] in
@[simp] theorem castVote_commit : (s.castVote p u l).commit = s.commit := by
  unfold castVote; split <;> rfl

omit [Fintype ν] in
theorem castVote_self (h : s.lead u = none) : (s.castVote p u l).vote p u = some l := by
  rw [castVote_of_none h]
  exact addVote_eq_some.mpr (.inl ⟨rfl, rfl, rfl⟩)

omit [Fintype ν] in
theorem castVote_eq_some {q : ν} {w : ℕ} {l' : List ε}
    (h : (s.castVote p u l).vote q w = some l') :
    s.vote q w = some l' ∨ s.lead u = none ∧ q = p ∧ w = u ∧ l' = l := by
  rcases s.castVote_cases p u l with ⟨hnone, heq⟩ | ⟨-, heq⟩
  · rw [heq] at h
    exact (addVote_eq_some.mp h).elim (fun hnew ↦ .inr ⟨hnone, hnew⟩) (fun hold ↦ .inl hold.2)
  · rw [heq] at h
    exact .inl h

omit [Fintype ν] in
theorem extends_castVote (hnone : s.lead u = none → s.vote p u = none) :
    Extends term s (s.castVote p u l) := by
  rcases s.castVote_cases p u l with ⟨hlead, heq⟩ | ⟨-, heq⟩
  · rw [heq]
    exact extends_addVote (hnone hlead)
  · rw [heq]
    exact ⟨fun _ ↦ le_rfl, fun _ l hl ↦ ⟨[], by simpa using hl, by simp⟩, fun _ _ _ hv ↦ hv,
      fun _ _ _ ha ↦ ha⟩

omit [Fintype ν] in
theorem apart_castVote : Apart p s (s.castVote p u l) := by
  refine ⟨by simp, by simp, by simp, by simp, fun q hq ↦ ?_⟩
  rcases s.castVote_cases p u l with ⟨-, heq⟩ | ⟨-, heq⟩
  · rw [heq]
    exact Function.update_of_ne hq _ _
  · rw [heq]

theorem Inv.castVote (h : s.Inv term)
    (hvote : s.lead u = none → (s.addVote p u l).Inv term) : (s.castVote p u l).Inv term := by
  rcases s.castVote_cases p u l with ⟨hlead, heq⟩ | ⟨-, heq⟩
  · rw [heq]
    exact hvote hlead
  · rwa [heq]

end castVote

def setLead (s : State ν ε) (u : ℕ) (l : List ε) : State ν ε :=
  { s with lead := Function.update s.lead u (some l) }

omit [Fintype ν] [DecidableEq ν] in
theorem setLead_eq_some {u w : ℕ} {l l' : List ε} :
    (s.setLead u l).lead w = some l' ↔ w = u ∧ l' = l ∨ w ≠ u ∧ s.lead w = some l' := by
  by_cases hw : w = u
  · subst hw
    simp [setLead, eq_comm]
  · simp [setLead, hw]

omit [Fintype ν] [DecidableEq ν] in
theorem extends_win {u : ℕ} {l : List ε} (hnone : s.lead u = none) :
    Extends term s (s.setLead u l) := by
  refine ⟨fun _ ↦ le_rfl, fun w lw hl ↦ ⟨[], ?_, by simp⟩, fun _ _ _ hv ↦ hv, fun _ _ _ ha ↦ ha⟩
  rw [List.append_nil]
  refine setLead_eq_some.mpr (.inr ⟨?_, hl⟩)
  rintro rfl
  rw [hnone] at hl
  cases hl

omit [DecidableEq ν] in
/-- The log that a majority has voted for becomes the log of the leader. -/
theorem Inv.win (h : s.Inv term) {u : ℕ} {l : List ε} (hnone : s.lead u = none)
    (hchosen : s.Chosen u l) : (s.setLead u l).Inv term := by
  have hext : Extends term s (s.setLead u l) := extends_win hnone
  have hpos : 0 < u := by
    obtain ⟨q, hq, hvotes⟩ := hchosen
    obtain ⟨p, hp⟩ := hq.nonempty
    obtain ⟨t, -, htu, -⟩ := (h.voted p u l (hvotes p hp)).log
    omega
  refine h.grow hext (fun _ ↦ .inl ⟨rfl, rfl, rfl⟩) ?_ (fun _ _ _ hv ↦ .inl hv)
    (fun _ _ _ ha ↦ .inl ha)
  intro w l' hl'
  rcases setLead_eq_some.mp hl' with ⟨rfl, rfl⟩ | ⟨-, hold⟩
  · refine .inr ?_
    by_cases hne : l' = []
    · subst hne
      exact ⟨hpos, List.Pairwise.nil, by simp, by simp, [], List.prefix_rfl, hchosen.grow hext⟩
    · obtain ⟨v, lv, hvu, hlv, hpre, -⟩ :=
        h.chosen_prefix (h.completeBelow w) hchosen hne
      have hleader := (h.leader v lv hlv).grow hext
      refine ⟨hpos, hleader.sorted.sublist hpre.sublist, ?_, ?_, l', List.prefix_rfl,
        hchosen.grow hext⟩
      · exact fun e he ↦ (hleader.term_le e (hpre.subset he)).trans hvu.le
      · intro k e hk
        have hlt := (List.getElem?_eq_some_iff.mp hk).1
        have hagree := Agree.of_prefix hpre
        have hk' : lv[k]? = some e := by rw [← hagree.getElem? k hlt, hk]
        obtain ⟨lw, hlw, hagree'⟩ := hleader.matched k e hk'
        exact ⟨lw, hlw, (hagree.mono hlt).trans hagree'⟩
  · exact .inl hold

omit [Fintype ν] [DecidableEq ν] in
theorem extends_extend {u : ℕ} {l : List ε} {e : ε} (hl : s.lead u = some l) (he : term e = u) :
    Extends term s (s.setLead u (l ++ [e])) := by
  refine ⟨fun _ ↦ le_rfl, fun w lw hlw ↦ ?_, fun _ _ _ hv ↦ hv, fun _ _ _ ha ↦ ha⟩
  by_cases hw : w = u
  · subst hw
    cases Option.some.inj (hl.symm.trans hlw)
    exact ⟨[e], setLead_eq_some.mpr (.inl ⟨rfl, rfl⟩), by simpa using he⟩
  · refine ⟨[], ?_, by simp⟩
    rw [List.append_nil]
    exact setLead_eq_some.mpr (.inr ⟨hw, hlw⟩)

omit [DecidableEq ν] in
/-- A leader appends an entry of its term. -/
theorem Inv.extend (h : s.Inv term) {u : ℕ} {l : List ε} {e : ε} (hl : s.lead u = some l)
    (he : term e = u) : (s.setLead u (l ++ [e])).Inv term := by
  have hext : Extends term s (s.setLead u (l ++ [e])) := extends_extend hl he
  have hleader := h.leader u l hl
  refine h.grow hext (fun _ ↦ .inl ⟨rfl, rfl, rfl⟩) ?_ (fun _ _ _ hv ↦ .inl hv)
    (fun _ _ _ ha ↦ .inl ha)
  intro w l' hl'
  rcases setLead_eq_some.mp hl' with ⟨rfl, rfl⟩ | ⟨-, hold⟩
  · refine .inr ⟨hleader.pos, ?_, ?_, ?_, ?_⟩
    · rw [List.pairwise_append]
      refine ⟨hleader.sorted, List.pairwise_singleton _ _, fun e' he' e'' he'' ↦ ?_⟩
      rw [List.mem_singleton.mp he'', he]
      exact hleader.term_le e' he'
    · intro e' he'
      rcases List.mem_append.mp he' with he' | he'
      · exact hleader.term_le e' he'
      · rw [List.mem_singleton.mp he', he]
    · intro k e' hk
      by_cases hlt : k < l.length
      · rw [List.getElem?_append_left hlt] at hk
        obtain ⟨lw, hlw, hagree⟩ := (hleader.grow hext).matched k e' hk
        exact ⟨lw, hlw, hagree.prefix_left (List.prefix_append l [e])⟩
      · have hlen := (List.getElem?_eq_some_iff.mp hk).1
        have hk0 : k = l.length := by
          simp only [List.length_append, List.length_singleton] at hlen
          omega
        subst hk0
        have hee : e = e' := by simpa using hk
        subst hee
        exact ⟨l ++ [e], by rw [he]; exact hl', .refl (by simp)⟩
    · obtain ⟨l₀, hpre, hchosen⟩ := hleader.chosen
      exact ⟨l₀, hpre.trans (List.prefix_append l [e]), hchosen.grow hext⟩
  · exact .inl hold

def addAck (s : State ν ε) (p : ν) (u m : ℕ) : State ν ε :=
  { s with ack := fun q c k ↦ s.ack q c k ∨ q = p ∧ c = u ∧ k = m }

omit [Fintype ν] [DecidableEq ν] in
theorem extends_addAck {p : ν} {u m : ℕ} : Extends term s (s.addAck p u m) :=
  ⟨fun _ ↦ le_rfl, fun v l' hl ↦ ⟨[], by simpa [State.addAck] using hl, by simp⟩,
    fun _ _ _ hv ↦ hv, fun _ _ _ ha ↦ .inl ha⟩

omit [DecidableEq ν] in
/-- A node acknowledges, in the term of the leader, a length up to which its
log is the one of the leader. -/
theorem Inv.addAck (h : s.Inv term) {p : ν} {u m : ℕ} {lu : List ε} (hcur : s.cur p = u)
    (hlu : s.lead u = some lu) (hends : EndsIn term u m lu) (hagree : Agree m (s.log p) lu)
    (hlast : u ≤ lastTerm term (s.log p)) : (s.addAck p u m).Inv term := by
  refine h.grow extends_addAck (fun _ ↦ .inl ⟨rfl, rfl, rfl⟩) (fun _ _ hl ↦ .inl hl)
    (fun _ _ _ hv ↦ .inl hv) ?_
  rintro q c k (hold | ⟨rfl, rfl, rfl⟩)
  · exact .inl hold
  · refine .inr ⟨⟨hcur.ge, lu, hlu, hends, .inl ⟨hagree, hlast⟩⟩, fun v l hv hlt ↦ ?_⟩
    have := (h.voted q v l hv).le_cur
    omega

omit [DecidableEq ν] in
/-- A log that agrees with a leader up to an entry of its term either ends in
that term or later, or all of it up to there is committed in that term. -/
theorem Inv.le_lastTerm_or (h : s.Inv term) {p : ν} {u m : ℕ} {lu : List ε} (hcur : s.cur p = u)
    (hends : EndsIn term u m lu) (hagree : Agree m (s.log p) lu) :
    u ≤ lastTerm term (s.log p) ∨ ∃ k, m ≤ k ∧ s.Committed u k := by
  have hnode := h.node p
  obtain ⟨j, e, rfl, hj, rfl⟩ := hends
  have hlog : (s.log p)[j]? = some e := by rw [hagree.getElem? j (Nat.lt_succ_self j), hj]
  by_cases hbase : s.base p ≤ j
  · -- the last entry follows a leader that has the entry too
    rcases eq_nil_or_lastTerm term (s.log p) with hnil | ⟨k, e', hlen, hk, hlast⟩
    · simp [hnil] at hlog
    · have hjk : j ≤ k := by
        have := (List.getElem?_eq_some_iff.mp hlog).1
        omega
      obtain ⟨-, lw, hlw, hget⟩ := hnode.stored k e' (hbase.trans hjk) hk
      have hleader := h.leader _ lw hlw
      rw [hget j hbase hjk] at hlog
      rw [hget k (hbase.trans hjk) le_rfl] at hk
      exact .inl (hlast ▸ hleader.sorted_getElem? hjk hlog hk)
  · -- the entry is compacted, so it is committed
    rcases hnode.fixed.mono le_rfl hnode.base_le with hzero | ⟨c, k, lc, hct, hbk, hc, hlc, hpre⟩
    · omega
    · have hle : term e ≤ c := h.term_le_of_agree hlc hpre (by omega) hlog
      have hsame : c = term e := by omega
      exact .inr ⟨k, by omega, hsame ▸ hc⟩

end steps

end State

end HttpRaftKv.Replication
