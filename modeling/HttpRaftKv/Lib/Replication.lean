import HttpRaftKv.Lib.Agree
import HttpRaftKv.Lib.Majority

/-!
# Logs replicated by elected leaders

Nodes keep logs whose entries carry terms.  The state remembers more than a
node could: the whole log of every node, also what it has compacted away below
`base`; for every term the log of the candidate that a node has voted for; the
log of the leader of every term; and which nodes have acknowledged which length
of the log of which leader.  A length of the log of a leader is committed if a
majority has acknowledged it and it ends in an entry of that term.

Nothing is assumed about how the nodes communicate.  The invariant `Inv` says
what the log of a node, the vote, the acknowledgement and the log of a leader
owe to the logs of earlier leaders.  It implies leader completeness: a log that
a majority has voted for in a term contains everything that was committed in
earlier terms.
-/

namespace HttpRaftKv.Replication

variable {ν ε : Type*}

structure State (ν ε : Type*) where
  cur : ν → ℕ
  log : ν → List ε
  base : ν → ℕ
  commit : ν → ℕ
  vote : ν → ℕ → Option (List ε)
  lead : ℕ → Option (List ε)
  ack : ν → ℕ → ℕ → Prop

section terms

variable (term : ε → ℕ)

def lastTerm (l : List ε) : ℕ :=
  (l.getLast?.map term).getD 0

/-- The log ends, at a length, in an entry of a term. -/
def EndsIn (c m : ℕ) (l : List ε) : Prop :=
  ∃ k e, m = k + 1 ∧ l[k]? = some e ∧ term e = c

end terms

namespace State

variable [Fintype ν] (term : ε → ℕ) (s : State ν ε)

def Committed (c m : ℕ) : Prop :=
  ∃ q : Finset ν, Majority q ∧ ∀ p ∈ q, s.ack p c m

def Chosen (u : ℕ) (l : List ε) : Prop :=
  ∃ q : Finset ν, Majority q ∧ ∀ p ∈ q, s.vote p u = some l

/-- The first `m` entries of a log are committed, not after term `t`. -/
def Fixed (t m : ℕ) (l : List ε) : Prop :=
  m = 0 ∨ ∃ c k lc, c ≤ t ∧ m ≤ k ∧ s.Committed c k ∧ s.lead c = some lc ∧ Agree m l lc

/-- From position `b` on, a log follows the leader of each of its entries. -/
def Stored (t b : ℕ) (l : List ε) : Prop :=
  ∀ k e, b ≤ k → l[k]? = some e → term e ≤ t ∧
    ∃ lw, s.lead (term e) = some lw ∧ ∀ j, b ≤ j → j ≤ k → l[j]? = lw[j]?

/-- A leader before term `t` has departed from the first `m` entries of the
log of the leader of an earlier term. -/
def Broken (c m : ℕ) (lc : List ε) (t : ℕ) : Prop :=
  ∃ w lw, c < w ∧ w < t ∧ s.lead w = some lw ∧ ¬ Agree m lw lc

/-! ## The invariant -/

structure NodeInv (p : ν) : Prop where
  fixed : s.Fixed (s.cur p) (s.commit p) (s.log p)
  base_le : s.base p ≤ s.commit p
  commit_le : s.commit p ≤ (s.log p).length
  stored : s.Stored term (s.cur p) (s.base p) (s.log p)

structure LeadInv (u : ℕ) (l : List ε) : Prop where
  pos : 0 < u
  sorted : l.Pairwise fun e e' ↦ term e ≤ term e'
  term_le : ∀ e ∈ l, term e ≤ u
  matched : ∀ k e, l[k]? = some e → ∃ lw, s.lead (term e) = some lw ∧ Agree (k + 1) l lw
  chosen : ∃ l₀, l₀ <+: l ∧ s.Chosen u l₀

structure VoteInv (p : ν) (u : ℕ) (l : List ε) : Prop where
  le_cur : u ≤ s.cur p
  log : ∃ t b, t < u ∧ b ≤ l.length ∧ s.Stored term t b l ∧ s.Fixed t b l

structure AckInv (p : ν) (c m : ℕ) : Prop where
  le_cur : c ≤ s.cur p
  held : ∃ lc, s.lead c = some lc ∧ EndsIn term c m lc ∧
    (Agree m (s.log p) lc ∧ c ≤ lastTerm term (s.log p) ∨ s.Broken c m lc (s.cur p + 1))

/-- A vote given after an acknowledgement of an earlier term is for a log that
ends behind it. -/
def VoteAckInv (u : ℕ) (l : List ε) (c m : ℕ) : Prop :=
  c < u → ∀ lc, s.lead c = some lc →
    (c < lastTerm term l ∨ lastTerm term l = c ∧ m ≤ l.length) ∨ s.Broken c m lc u

structure Inv : Prop where
  node : ∀ p, s.NodeInv term p
  leader : ∀ u l, s.lead u = some l → s.LeadInv term u l
  voted : ∀ p u l, s.vote p u = some l → s.VoteInv term p u l
  acked : ∀ p c m, s.ack p c m → s.AckInv term p c m
  votedAcked : ∀ p u l c m, s.vote p u = some l → s.ack p c m → s.VoteAckInv term u l c m

end State

/-! ## Leader completeness -/

section completeness

variable {term : ε → ℕ}

theorem eq_nil_or_lastTerm (term : ε → ℕ) (l : List ε) :
    l = [] ∨ ∃ k e, l.length = k + 1 ∧ l[k]? = some e ∧ lastTerm term l = term e := by
  rcases List.eq_nil_or_concat' l with rfl | ⟨l₀, e, rfl⟩
  · exact .inl rfl
  · exact .inr ⟨l₀.length, e, by simp, by simp, by simp [lastTerm]⟩

theorem EndsIn.le_length {c m : ℕ} {l : List ε} (h : EndsIn term c m l) : m ≤ l.length := by
  obtain ⟨k, e, rfl, hk, -⟩ := h
  exact (List.getElem?_eq_some_iff.mp hk).1

theorem EndsIn.prefix {c m : ℕ} {l l' : List ε} (h : EndsIn term c m l) (hp : l <+: l') :
    EndsIn term c m l' := by
  obtain ⟨k, e, rfl, hk, he⟩ := h
  obtain ⟨r, rfl⟩ := hp
  have hlt := (List.getElem?_eq_some_iff.mp hk).1
  exact ⟨k, e, rfl, by rw [List.getElem?_append_left hlt, hk], he⟩

namespace State

variable [Fintype ν] {s : State ν ε}

theorem LeadInv.sorted_getElem? {u : ℕ} {l : List ε} (h : s.LeadInv term u l) {j k : ℕ}
    {e e' : ε} (hjk : j ≤ k) (hj : l[j]? = some e) (hk : l[k]? = some e') : term e ≤ term e' := by
  obtain ⟨hlj, rfl⟩ := List.getElem?_eq_some_iff.mp hj
  obtain ⟨hlk, rfl⟩ := List.getElem?_eq_some_iff.mp hk
  rcases hjk.eq_or_lt with rfl | hlt
  · exact le_rfl
  · exact List.pairwise_iff_getElem.mp h.sorted j k hlj hlk hlt

theorem LeadInv.getElem?_le {u : ℕ} {l : List ε} (h : s.LeadInv term u l) {k : ℕ} {e : ε}
    (hk : l[k]? = some e) : term e ≤ u :=
  h.term_le e (List.mem_of_getElem? hk)

namespace Inv

variable (h : s.Inv term)

include h

/-- A committed length lies inside the log of its leader and ends in its term. -/
theorem committed_lead {c m : ℕ} (hc : s.Committed c m) :
    ∃ lc, s.lead c = some lc ∧ EndsIn term c m lc := by
  obtain ⟨q, hq, hall⟩ := hc
  obtain ⟨p, hp⟩ := hq.nonempty
  obtain ⟨lc, hlead, hends, -⟩ := (h.acked p c m (hall p hp)).held
  exact ⟨lc, hlead, hends⟩

/-- The entries up to a committed length have at most its term. -/
theorem term_le_of_agree {c m k : ℕ} {l lc : List ε} {e : ε} (hlead : s.lead c = some lc)
    (hagree : Agree m l lc) (hk : k < m) (he : l[k]? = some e) : term e ≤ c := by
  rw [hagree.getElem? k hk] at he
  exact (h.leader c lc hlead).getElem?_le he

end Inv

/-- What leader completeness says of the leaders below a term. -/
def CompleteBelow (s : State ν ε) (u : ℕ) : Prop :=
  ∀ w < u, ∀ lw, s.lead w = some lw → ∀ c m lc, c ≤ w → s.Committed c m →
    s.lead c = some lc → Agree m lw lc

namespace Inv

variable (h : s.Inv term)

include h

/-- A log that a majority has voted for ends behind everything committed
before. -/
theorem chosen_ends {u : ℕ} {l : List ε} (hbelow : s.CompleteBelow u) (hchosen : s.Chosen u l)
    {c m : ℕ} (hcu : c < u) (hc : s.Committed c m) :
    c < lastTerm term l ∨ lastTerm term l = c ∧ m ≤ l.length := by
  obtain ⟨lc, hlead, -⟩ := h.committed_lead hc
  obtain ⟨qv, hqv, hvotes⟩ := hchosen
  obtain ⟨qa, hqa, hacks⟩ := id hc
  obtain ⟨p, hpv, hpa⟩ := hqv.exists_mem_mem hqa
  rcases h.votedAcked p u l c m (hvotes p hpv) (hacks p hpa) hcu lc hlead with hends | hbroken
  · exact hends
  · obtain ⟨w, lw, hcw, hwu, hlw, hnot⟩ := hbroken
    exact absurd (hbelow w hwu lw hlw c m lc hcw.le hc hlead) hnot

/-- A log that a majority has voted for is a prefix of the log of an earlier
leader, whose term is not below the last term of the log. -/
theorem chosen_prefix {u : ℕ} {l : List ε} (hbelow : s.CompleteBelow u) (hchosen : s.Chosen u l)
    (hne : l ≠ []) :
    ∃ w lw, w < u ∧ s.lead w = some lw ∧ l <+: lw ∧ lastTerm term l ≤ w := by
  obtain ⟨k, e, hlen, hk, hlast⟩ := (eq_nil_or_lastTerm term l).resolve_left hne
  have hends := fun {c m} (hcu : c < u) (hc : s.Committed c m) ↦
    h.chosen_ends hbelow hchosen hcu hc
  obtain ⟨q, hq, hvotes⟩ := hchosen
  obtain ⟨p, hp⟩ := hq.nonempty
  obtain ⟨t, b, htu, hb, hstored, hfixed⟩ := (h.voted p u l (hvotes p hp)).log
  by_cases hbk : b ≤ k
  · -- the last entry is stored, so the log follows the leader of its term
    obtain ⟨hte, lw, hlw, hget⟩ := hstored k e hbk hk
    have hlt : k < lw.length := by
      have := hget k hbk le_rfl
      rw [hk] at this
      exact (List.getElem?_eq_some_iff.mp this.symm).1
    have hbase : Agree b l lw := by
      rcases hfixed with rfl | ⟨c, m, lc, hct, hbm, hc, hlc, hagree⟩
      · exact .zero
      · have hcw : c ≤ term e := by
          have := hends (hct.trans_lt htu) hc
          omega
        have hfull := hbelow (term e) (hte.trans_lt htu) lw hlw c m lc hcw hc hlc
        exact hagree.trans (hfull.mono hbm).symm
    have hagree : Agree l.length l lw :=
      hbase.of_below le_rfl (by omega) fun j hbj hj ↦ hget j hbj (by omega)
    exact ⟨term e, lw, hte.trans_lt htu, hlw, hagree.prefix_of_length, hlast.le⟩
  · -- the whole log is fixed
    have hbl : b = l.length := by omega
    subst hbl
    rcases hfixed with hzero | ⟨c, m, lc, hct, hbm, hc, hlc, hagree⟩
    · omega
    · refine ⟨c, lc, hct.trans_lt htu, hlc, hagree.prefix_of_length, ?_⟩
      rw [hlast]
      exact h.term_le_of_agree hlc hagree (by omega) hk

theorem chosen_complete {u : ℕ} {l : List ε} (hbelow : s.CompleteBelow u)
    (hchosen : s.Chosen u l) {c m : ℕ} {lc : List ε} (hcu : c < u) (hc : s.Committed c m)
    (hlead : s.lead c = some lc) : Agree m l lc := by
  have hends := h.chosen_ends hbelow hchosen hcu hc
  have hpos := (h.leader c lc hlead).pos
  rcases eq_nil_or_lastTerm term l with rfl | ⟨k, e, hlen, hk, hlast⟩
  · simp only [lastTerm, List.getLast?_nil, Option.map_none, Option.getD_none] at hends
    omega
  · have hne : l ≠ [] := by
      rintro rfl
      simp at hlen
    obtain ⟨w, lw, hwu, hlw, hpre, hlastw⟩ := h.chosen_prefix hbelow hchosen hne
    have hfull : Agree m lw lc := hbelow w hwu lw hlw c m lc (by omega) hc hlead
    have hm : m ≤ l.length := by
      rcases hends with hlt | ⟨-, hm⟩
      · -- an entry of a later term is not among the committed ones
        by_contra hlong
        have hlwk : lw[k]? = some e := by
          rw [← (Agree.of_prefix hpre).getElem? k (by omega), hk]
        have := h.term_le_of_agree hlead hfull (by omega) hlwk
        omega
      · exact hm
    exact ((Agree.of_prefix hpre).mono hm).trans hfull

theorem completeBelow (u : ℕ) : s.CompleteBelow u := by
  induction u with
  | zero => exact fun w hw ↦ absurd hw (Nat.not_lt_zero w)
  | succ u ih =>
      intro w hw lw hlw c m lc hcw hc hlead
      rcases Nat.lt_succ_iff_lt_or_eq.mp hw with hwu | rfl
      · exact ih w hwu lw hlw c m lc hcw hc hlead
      · rcases hcw.eq_or_lt with rfl | hcw
        · rw [hlead] at hlw
          cases Option.some.inj hlw
          obtain ⟨lc', hlead', hends⟩ := h.committed_lead hc
          rw [hlead] at hlead'
          cases Option.some.inj hlead'
          exact .refl hends.le_length
        · obtain ⟨l₀, hpre, hchosen⟩ := (h.leader w lw hlw).chosen
          exact (h.chosen_complete ih hchosen hcw hc hlead).prefix_left hpre

/-- Leader completeness. -/
theorem lead_agree {c m w : ℕ} {lc lw : List ε} (hcw : c ≤ w) (hc : s.Committed c m)
    (hlc : s.lead c = some lc) (hlw : s.lead w = some lw) : Agree m lw lc :=
  h.completeBelow (w + 1) w (Nat.lt_succ_self w) lw hlw c m lc hcw hc hlc

/-- Everything committed is the same. -/
theorem committed_agree {c m c' m' k : ℕ} {lc lc' : List ε} (hc : s.Committed c m)
    (hlc : s.lead c = some lc) (hc' : s.Committed c' m') (hlc' : s.lead c' = some lc')
    (hk : k < m) (hk' : k < m') : lc[k]? = lc'[k]? := by
  rcases le_total c c' with hle | hle
  · exact ((h.lead_agree hle hc hlc hlc').getElem? k hk).symm
  · exact (h.lead_agree hle hc' hlc' hlc).getElem? k hk'

/-- What is fixed in a log is what any leader from then on has. -/
theorem fixed_agree {t m w : ℕ} {l lw : List ε} (hfixed : s.Fixed t m l) (htw : t ≤ w)
    (hlw : s.lead w = some lw) : Agree m l lw := by
  rcases hfixed with rfl | ⟨c, k, lc, hct, hmk, hc, hlc, hagree⟩
  · exact .zero
  · exact hagree.trans ((h.lead_agree (hct.trans htw) hc hlc hlw).mono hmk).symm

end Inv

end State

end completeness

end HttpRaftKv.Replication
