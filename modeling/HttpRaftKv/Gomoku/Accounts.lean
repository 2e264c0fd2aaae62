import HttpRaftKv.Gomoku.HttpHandlers
import HttpRaftKv.Http.Responses
import HttpRaftKv.Lib.Runs

/-!
# Accounts

The table of the users who are online and the sessions are changed by different
handlers.  A user who is online can only log out with a session in which he is logged
in, and until then nobody can log in as this user.  A request changes the accounts in
one of four ways, and each of them locks a user out exactly if it takes his only
session from a user who stays online.
-/

namespace HttpRaftKv.Gomoku

open Http

/-! ## Texts and numbers of users -/

theorem utf8_eq_flatMap (text : String) : utf8 text = text.toList.flatMap String.utf8EncodeChar := by
  have hbytes : text.toUTF8 = (text.toList.flatMap String.utf8EncodeChar).toByteArray :=
    String.utf8Encode_toList.symm
  rw [utf8, hbytes]
  simp

theorem utf8EncodeChar_of_lt {c : Char} (hc : c.toNat < 128) :
    String.utf8EncodeChar c = [UInt8.ofNat c.toNat] := by
  have hlt : c.val.toNat ≤ 127 := Nat.le_of_lt_succ hc
  rw [String.utf8EncodeChar_eq_singleton (Char.utf8Size_eq_one_iff.mpr hlt)]
  rfl

/-- A text of ASCII characters has one byte for each. -/
theorem utf8_eq_ascii {text : String} (h : ∀ c ∈ text.toList, c.toNat < 128) :
    utf8 text = ascii text := by
  rw [utf8_eq_flatMap, List.flatMap_congr fun c hc ↦ utf8EncodeChar_of_lt (h c hc),
    ← List.map_eq_flatMap]
  rfl

theorem utf8_append (a b : String) : utf8 (a ++ b) = utf8 a ++ utf8 b := by
  simp [utf8]

/-- `std::to_string` of an `int`. -/
theorem utf8_toString (u : ℤ) :
    utf8 (toString u) = (if u < 0 then [45] else []) ++ decimal u.natAbs := by
  have hdigits : ∀ k : ℕ, utf8 k.repr = decimal k := by
    intro k
    rw [utf8_eq_ascii, ascii, Nat.repr, String.toList_ofList]
    · rfl
    · intro c hc
      rw [Nat.repr, String.toList_ofList] at hc
      have := (toNat_of_mem_toDigits hc).2.2
      omega
  cases u with
  | ofNat k => exact hdigits k
  | negSucc k =>
      have hsign : utf8 "-" = [45] := by decide +kernel
      change utf8 ("-" ++ (k + 1).repr) = _
      rw [utf8_append, hdigits, hsign, if_pos (Int.negSucc_lt_zero k)]
      rfl

theorem utf8_toString_injective {u v : ℤ} (h : utf8 (toString u) = utf8 (toString v)) :
    u = v := by
  have hminus : ∀ k, 45 ∉ decimal k := fun k ↦ notMem_decimal (by decide)
  rw [utf8_toString, utf8_toString] at h
  split_ifs at h with hu hv hv
  · have habs := decimal_injective (List.append_cancel_left h)
    omega
  · rw [List.nil_append] at h
    exact absurd (h ▸ List.mem_append_left _ List.mem_cons_self) (hminus v.natAbs)
  · rw [List.nil_append] at h
    exact absurd (h ▸ List.mem_append_left _ List.mem_cons_self) (hminus u.natAbs)
  · have habs := decimal_injective (List.append_cancel_left h)
    omega

theorem le_toNat_of_isdigit {b : UInt8} (h : isdigit b = true) : 48 ≤ b.toNat := by
  rw [isdigit, Bool.and_eq_true, decide_eq_true_eq, UInt8.le_iff_toNat_le] at h
  exact h.1

/-- A digit is neither a space nor a sign. -/
theorem not_sign_of_isdigit {b : UInt8} (h : isdigit b = true) :
    isspace b = false ∧ b ≠ 45 ∧ b ≠ 43 := by
  have hge := le_toNat_of_isdigit h
  refine ⟨?_, ?_, ?_⟩
  · rw [isspace, Bool.or_eq_false_iff, Bool.and_eq_false_iff, decide_eq_false_iff_not,
      decide_eq_false_iff_not, decide_eq_false_iff_not]
    refine ⟨?_, .inr fun hle ↦ ?_⟩
    · rintro rfl
      exact absurd hge (by decide)
    · have hle : b.toNat ≤ 13 := hle
      omega
  · rintro rfl
    exact absurd hge (by decide)
  · rintro rfl
    exact absurd hge (by decide)

theorem foldl_int_decimal (k : ℕ) :
    (decimal k).foldl (fun (value : ℤ) b ↦ 10 * value + ((b.toNat : ℤ) - 48)) 0 = k := by
  have hcast : ∀ (bs : Bytes) (value : ℕ), (∀ b ∈ bs, isdigit b = true) →
      bs.foldl (fun (value : ℤ) b ↦ 10 * value + ((b.toNat : ℤ) - 48)) value =
        (bs.foldl (fun value b ↦ 10 * value + (b.toNat - 48)) value : ℕ) := by
    intro bs
    induction bs with
    | nil => exact fun _ _ ↦ rfl
    | cons b bs ih =>
        intro value hbs
        have hge := le_toNat_of_isdigit (hbs b List.mem_cons_self)
        have hstep : 10 * (value : ℤ) + ((b.toNat : ℤ) - 48) =
            ((10 * value + (b.toNat - 48) : ℕ) : ℤ) := by omega
        rw [List.foldl_cons, List.foldl_cons, hstep]
        exact ih _ fun b' hb' ↦ hbs b' (List.mem_cons_of_mem _ hb')
  have hread := hcast (decimal k) 0 fun b hb ↦ isdigit_of_mem_decimal hb
  rw [foldl_decimal] at hread
  exact hread

/-- What `std::stoi` reads is the number that `std::to_string` has written. -/
theorem eq_of_stoi_toString {u k : ℤ} (h : stoi (utf8 (toString u)) = some k) : k = u := by
  have hvalue : ∀ (text : Bytes) (sign : ℤ), sign * (u.natAbs : ℤ) = u →
      text.takeWhile isdigit = decimal u.natAbs →
      (if text.takeWhile isdigit = [] ∨
          sign * (text.takeWhile isdigit).foldl
            (fun (value : ℤ) b ↦ 10 * value + ((b.toNat : ℤ) - 48)) 0 < -2 ^ 31 ∨
          2 ^ 31 ≤ sign * (text.takeWhile isdigit).foldl
            (fun (value : ℤ) b ↦ 10 * value + ((b.toNat : ℤ) - 48)) 0 then none
        else some (sign * (text.takeWhile isdigit).foldl
            (fun (value : ℤ) b ↦ 10 * value + ((b.toNat : ℤ) - 48)) 0)) = some k → k = u := by
    intro text sign hsign htext hsome
    rw [htext, foldl_int_decimal, hsign] at hsome
    split_ifs at hsome
    exact (Option.some.inj hsome).symm
  have hdigits : (decimal u.natAbs).takeWhile isdigit = decimal u.natAbs := by
    rw [← List.append_nil (decimal u.natAbs),
      List.takeWhile_append_of_pos fun b hb ↦ isdigit_of_mem_decimal hb, List.takeWhile_nil]
  rw [utf8_toString] at h
  by_cases hneg : u < 0
  · rw [if_pos hneg] at h
    exact hvalue (decimal u.natAbs) (-1) (by omega) hdigits h
  · rw [if_neg hneg, List.nil_append] at h
    cases hcons : decimal u.natAbs with
    | nil =>
        have hnone : stoi [] = none := by decide
        rw [hcons, hnone] at h
        cases h
    | cons b bs =>
        obtain ⟨hspace, hminus, hplus⟩ :=
          not_sign_of_isdigit (isdigit_of_mem_decimal (hcons ▸ List.mem_cons_self))
        rw [hcons] at h hdigits
        have hdrop : (b :: bs).dropWhile isspace = b :: bs :=
          List.dropWhile_cons_of_neg (by rw [hspace]; decide)
        have hhead : (b :: bs).head? ≠ some 45 ∧ (b :: bs).head? ≠ some 43 :=
          ⟨fun heq ↦ hminus (Option.some.inj heq), fun heq ↦ hplus (Option.some.inj heq)⟩
        simp only [stoi, hdrop, hhead, false_or, if_false] at h
        exact hvalue (b :: bs) 1 (by omega) (hdigits.trans hcons.symm) h

/-! ## Users and sessions -/

structure Accounts where
  sessions : SessionStorage
  onlineUsers : List (ℤ × Bool)

def Exchange.accounts (e : Exchange) : Accounts :=
  ⟨e.sessions, e.onlineUsers⟩

namespace Accounts

variable {a a' : Accounts} {sessionId : Bytes} {userId : ℤ}

def Online (a : Accounts) (userId : ℤ) : Prop :=
  a.onlineUsers.lookup userId = some true

instance (a : Accounts) (userId : ℤ) : Decidable (a.Online userId) :=
  inferInstanceAs (Decidable (_ = _))

/-- The session is stored and has not expired, and the user is logged in with it. -/
def LoggedInAs (a : Accounts) (sessionId : Bytes) (userId : ℤ) : Prop :=
  ∃ session, a.sessions.lookup sessionId = some session ∧ session.isExpired = false ∧
    session.getValue (ascii "isLoggedIn") = ascii "true" ∧
    session.getValue (ascii "userId") = utf8 (toString userId)

/-- Every user who is online has a session to log out with. -/
def NoLockout (a : Accounts) : Prop :=
  ∀ userId, a.Online userId → ∃ sessionId, a.LoggedInAs sessionId userId

/-- No user who is online has this session only. -/
def Spares (a : Accounts) (sessionId : Bytes) : Prop :=
  ∀ userId, a.Online userId → a.LoggedInAs sessionId userId →
    ∃ other, other ≠ sessionId ∧ a.LoggedInAs other userId

/-! ## Changes -/

/-- What may happen to the accounts: nothing, a session is lost, a user logs out with a
session, or a user who is not online logs in with a session. -/
inductive Change
  | keep
  | lose (sessionId : Bytes)
  | logout (sessionId : Bytes) (userId : ℤ)
  | login (sessionId : Bytes) (userId : ℤ)
deriving DecidableEq, Repr

/-- The accounts before and after a change. -/
def Changes (a a' : Accounts) : Change → Prop
  | .keep =>
      (∀ s u, a'.LoggedInAs s u ↔ a.LoggedInAs s u) ∧ ∀ u, a'.Online u ↔ a.Online u
  | .lose sessionId =>
      (∀ s u, a'.LoggedInAs s u ↔ s ≠ sessionId ∧ a.LoggedInAs s u) ∧
        ∀ u, a'.Online u ↔ a.Online u
  | .logout sessionId userId =>
      (∀ s u, a'.LoggedInAs s u ↔ s ≠ sessionId ∧ a.LoggedInAs s u) ∧
        (∀ u, a'.Online u ↔ u ≠ userId ∧ a.Online u) ∧
        ∀ u, a.LoggedInAs sessionId u → u = userId
  | .login sessionId userId =>
      (∀ s u, a'.LoggedInAs s u ↔ s = sessionId ∧ u = userId ∨
        s ≠ sessionId ∧ a.LoggedInAs s u) ∧
        (∀ u, a'.Online u ↔ u = userId ∨ a.Online u) ∧ ¬ a.Online userId

/-- The change takes no session from a user who needs it. -/
def Harmless (a : Accounts) : Change → Prop
  | .keep | .logout _ _ => True
  | .lose sessionId | .login sessionId _ => a.Spares sessionId

/-- Every user who is online has a session besides this one, if he had one. -/
theorem exists_ne_iff_spares (h : a.NoLockout) :
    (∀ u, a.Online u → ∃ s, s ≠ sessionId ∧ a.LoggedInAs s u) ↔ a.Spares sessionId := by
  refine ⟨fun hall u hu _ ↦ hall u hu, fun hspares u hu ↦ ?_⟩
  obtain ⟨s, hs⟩ := h u hu
  by_cases heq : s = sessionId
  · exact hspares u hu (heq ▸ hs)
  · exact ⟨s, heq, hs⟩

/-- The step lemma of the accounts. -/
theorem noLockout_iff_harmless (h : a.NoLockout) {change : Change} (hchange : a.Changes a' change) :
    a'.NoLockout ↔ a.Harmless change := by
  cases change with
  | keep =>
      obtain ⟨hsessions, honline⟩ := hchange
      refine iff_of_true (fun u hu ↦ ?_) trivial
      obtain ⟨s, hs⟩ := h u ((honline u).mp hu)
      exact ⟨s, (hsessions s u).mpr hs⟩
  | lose sessionId =>
      obtain ⟨hsessions, honline⟩ := hchange
      rw [Harmless, ← exists_ne_iff_spares h]
      simp only [NoLockout, hsessions, honline]
  | logout sessionId userId =>
      obtain ⟨hsessions, honline, honly⟩ := hchange
      refine iff_of_true (fun u hu ↦ ?_) trivial
      obtain ⟨hne, hu⟩ := (honline u).mp hu
      obtain ⟨s, hs⟩ := h u hu
      refine ⟨s, (hsessions s u).mpr ⟨?_, hs⟩⟩
      rintro rfl
      exact hne (honly u hs)
  | login sessionId userId =>
      obtain ⟨hsessions, honline, hoffline⟩ := hchange
      rw [Harmless, ← exists_ne_iff_spares h]
      constructor
      · intro hafter u hu
        obtain ⟨s, hs⟩ := hafter u ((honline u).mpr (.inr hu))
        rcases (hsessions s u).mp hs with ⟨-, rfl⟩ | hold
        · exact absurd hu hoffline
        · exact ⟨s, hold⟩
      · intro hall u hu
        rcases (honline u).mp hu with rfl | hu
        · exact ⟨sessionId, (hsessions sessionId u).mpr (.inl ⟨rfl, rfl⟩)⟩
        · obtain ⟨s, hs⟩ := hall u hu
          exact ⟨s, (hsessions s u).mpr (.inr hs)⟩

/-! ## The tables -/

theorem lookup_save_of_ne (sessions : SessionStorage) {sessionId other : Bytes} (session : Session)
    (h : other ≠ sessionId) :
    (SessionStorage.save sessions sessionId session).lookup other = sessions.lookup other := by
  rw [SessionStorage.save, List.lookup_cons, beq_eq_false_iff_ne.mpr h]
  dsimp only [SessionStorage.remove]
  rw [OrderedMap.lookup_filter_ne, if_neg h]

/-- What is stored under the identifier decides who is logged in with it. -/
theorem loggedInAs_congr (h : a'.sessions.lookup sessionId = a.sessions.lookup sessionId) :
    a'.LoggedInAs sessionId userId ↔ a.LoggedInAs sessionId userId := by
  rw [LoggedInAs, LoggedInAs, h]

theorem not_loggedInAs_of_none (h : a.sessions.lookup sessionId = none) :
    ¬ a.LoggedInAs sessionId userId := by
  rintro ⟨session, hsession, -⟩
  rw [h] at hsession
  cases hsession

/-- Only other sessions count if nobody is logged in with this one any more. -/
theorem loggedInAs_iff_ne (hother : ∀ s, s ≠ sessionId →
      (a'.LoggedInAs s userId ↔ a.LoggedInAs s userId))
    (hthis : ¬ a'.LoggedInAs sessionId userId) (s : Bytes) :
    a'.LoggedInAs s userId ↔ s ≠ sessionId ∧ a.LoggedInAs s userId := by
  by_cases hs : s = sessionId
  · subst hs
    exact iff_of_false hthis fun h ↦ h.1 rfl
  · rw [hother s hs, and_iff_right hs]

end Accounts

end HttpRaftKv.Gomoku
