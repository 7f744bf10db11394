import Mekhan.Domain.Net

/-!
# Markings

The `Marking` of `domain/src/net.rs`: the tokens of each place, in arrival order. A place whose last
token was removed keeps its (empty) entry, as the source's map does.
-/

namespace Mekhan

open Infra

structure Marking where
  tokens : MapOf PlaceId (List Token)
  deriving DecidableEq

namespace Marking

def new : Marking := ⟨∅⟩

/-- All tokens at a place, `[]` for a place without an entry. -/
def tokensAt (m : Marking) (p : PlaceId) : List Token := (m.tokens.lookup p).getD []

def addToken (m : Marking) (p : PlaceId) (t : Token) : Marking :=
  ⟨m.tokens.insert p (m.tokensAt p ++ [t])⟩

/-- Removes the first token with the id. A missing place or token leaves the marking as it is. -/
def removeToken (m : Marking) (p : PlaceId) (id : TokenId) : Marking :=
  match m.tokens.lookup p with
  | none => m
  | some ts => ⟨m.tokens.insert p (ts.eraseP (·.id = id))⟩

/-- Replaces the color of the first token with the id. -/
def recolor (id : TokenId) (color : TokenColor) : List Token → List Token
  | [] => []
  | t :: ts => if t.id = id then { t with color := color } :: ts else t :: recolor id color ts

def updateToken (m : Marking) (p : PlaceId) (id : TokenId) (color : TokenColor) : Marking :=
  match m.tokens.lookup p with
  | none => m
  | some ts => ⟨m.tokens.insert p (recolor id color ts)⟩

def removeTokens (m : Marking) (consumed : List (PlaceId × TokenId)) : Marking :=
  consumed.foldl (fun m c => m.removeToken c.1 c.2) m

def addTokens (m : Marking) (produced : List (PlaceId × Token)) : Marking :=
  produced.foldl (fun m c => m.addToken c.1 c.2) m

/-! ## What each update does to a place -/

theorem tokensAt_addToken (m : Marking) (p q : PlaceId) (t : Token) :
    (m.addToken p t).tokensAt q = if q = p then m.tokensAt p ++ [t] else m.tokensAt q := by
  by_cases h : q = p
  · subst h
    simp [addToken, tokensAt]
  · simp [addToken, tokensAt, h]

theorem tokensAt_removeToken (m : Marking) (p q : PlaceId) (id : TokenId) : (m.removeToken p id).tokensAt q =
      if q = p then (m.tokensAt p).eraseP (·.id = id) else m.tokensAt q := by
  unfold removeToken
  by_cases h : q = p
  · subst h
    cases hl : m.tokens.lookup q <;> simp [tokensAt, hl]
  · cases hl : m.tokens.lookup p <;> simp [tokensAt, h]

theorem tokensAt_updateToken (m : Marking) (p q : PlaceId) (id : TokenId) (color : TokenColor) :
    (m.updateToken p id color).tokensAt q =
      if q = p then recolor id color (m.tokensAt p) else m.tokensAt q := by
  unfold updateToken
  by_cases h : q = p
  · subst h
    cases hl : m.tokens.lookup q <;> simp [tokensAt, hl, recolor]
  · cases hl : m.tokens.lookup p <;> simp [tokensAt, h]

theorem tokensAt_removeTokens_of_notMem {consumed : List (PlaceId × TokenId)} {q : PlaceId} :
    ∀ (m : Marking), (∀ c ∈ consumed, c.1 ≠ q) → (m.removeTokens consumed).tokensAt q = m.tokensAt q := by
  induction consumed with
  | nil => intro m _; rfl
  | cons c rest ih =>
    intro m h
    have hc : q ≠ c.1 := fun he => h c List.mem_cons_self he.symm
    have hrest : ∀ d ∈ rest, d.1 ≠ q := fun d hd => h d (List.mem_cons_of_mem _ hd)
    show ((m.removeToken c.1 c.2).removeTokens rest).tokensAt q = _
    rw [ih _ hrest, tokensAt_removeToken, if_neg hc]

theorem tokensAt_addTokens_of_notMem {produced : List (PlaceId × Token)} {q : PlaceId} :
    ∀ (m : Marking), (∀ c ∈ produced, c.1 ≠ q) → (m.addTokens produced).tokensAt q = m.tokensAt q := by
  induction produced with
  | nil => intro m _; rfl
  | cons c rest ih =>
    intro m h
    have hc : q ≠ c.1 := fun he => h c List.mem_cons_self he.symm
    have hrest : ∀ d ∈ rest, d.1 ≠ q := fun d hd => h d (List.mem_cons_of_mem _ hd)
    show ((m.addToken c.1 c.2).addTokens rest).tokensAt q = _
    rw [ih _ hrest, tokensAt_addToken, if_neg hc]

/-! ## Removing tokens that are there -/

theorem length_removeToken_le (m : Marking) (c : PlaceId × TokenId) (q : PlaceId) :
    ((m.removeToken c.1 c.2).tokensAt q).length ≤ (m.tokensAt q).length := by
  rw [tokensAt_removeToken]
  split
  · next h =>
    rw [h]
    exact List.length_eraseP_le
  · exact le_refl _

theorem length_removeTokens_le (q : PlaceId) : ∀ (consumed : List (PlaceId × TokenId)) (m : Marking),
    ((m.removeTokens consumed).tokensAt q).length ≤ (m.tokensAt q).length
  | [], _ => le_refl _
  | c :: rest, m =>
    (length_removeTokens_le q rest (m.removeToken c.1 c.2)).trans (length_removeToken_le m c q)

def Holds (m : Marking) (tokens : List (PlaceId × TokenId)) : Prop :=
  ∀ c ∈ tokens, ∃ t ∈ m.tokensAt c.1, t.id = c.2

theorem removeTokens_ne {m : Marking} {c : PlaceId × TokenId} (rest : List (PlaceId × TokenId))
    (h : ∃ t ∈ m.tokensAt c.1, t.id = c.2) : m.removeTokens (c :: rest) ≠ m := by
  intro heq
  obtain ⟨t, ht, hid⟩ := h
  have hlt : ((m.removeToken c.1 c.2).tokensAt c.1).length < (m.tokensAt c.1).length := by
    rw [tokensAt_removeToken, if_pos rfl, List.length_eraseP_of_mem ht (by simpa using hid)]
    exact Nat.sub_lt (List.length_pos_of_mem ht) Nat.one_pos
  have hle := length_removeTokens_le c.1 rest (m.removeToken c.1 c.2)
  have hsame : ((m.removeToken c.1 c.2).removeTokens rest) = m := heq
  rw [hsame] at hle
  exact absurd hlt (Nat.not_lt.mpr hle)

end Marking

end Mekhan
