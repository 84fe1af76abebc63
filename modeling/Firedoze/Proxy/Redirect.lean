import Firedoze.Http.Location
import Firedoze.Proxy.Wake
import Firedoze.Text.Utf8

/-!
# Where a grant leads

A signed URL that is redeemed and a captcha that is passed both end in a
redirect to the parameter `next` of the request.  The two handlers accept a
`next` with a leading slash that does not start with two.

The test looks at the raw text.  A browser that reads the header `Location` of
the redirect takes a backslash for a slash and does not see tabs, so it can
find two slashes where the handlers have found one
(`redirect_leaves_the_site`).  `redirects_stay_iff` says for which texts this
happens.
-/

namespace Firedoze

open Text Conc

/-- The target of a redirect, on the bytes of `next`. -/
def nextURL (next : Bytes) : Bytes :=
  if next = [] ∨ [Path.slash].isPrefixOf next = false ∨
      [Path.slash, Path.slash].isPrefixOf next = true then [Path.slash]
  else next

/-- The result of a program for some answers to its actions. -/
inductive Returns {E : Type → Type} {α : Type} : Prog E α → α → Prop
  | ret (a : α) : Returns (.ret a) a
  | act {β : Type} {e : E β} {k : β → Prog E α} {a : α} (b : β) :
      Returns (k b) a → Returns (.act e k) a
  | loop {β : Type} {body : Prog E (Option β)} {k : β → Prog E α} {a : α} :
      Returns (Prog.unroll body k) a → Returns (.loop body k) a

section Handlers

variable {r : Request} {host location : String} {cookie : Bytes} {expires : Time}

theorem Returns.eq {E : Type → Type} {α : Type} {a b : α}
    (h : Returns (.ret a : Prog E α) b) : a = b := by
  cases h
  rfl

theorem bytes_localNext (s : String) : bytes (localNext s) = nextURL (bytes s) := by
  have hempty : s = "" ↔ bytes s = [] := by
    rw [← bytes_injective.eq_iff (a := s) (b := "")]
    rfl
  have hone : hasPrefix s "/" = [Path.slash].isPrefixOf (bytes s) := by
    rw [bytes_eq_flatMap]
    exact (isPrefixOf_bytes ['/'] (by simp) s.toList).symm
  have htwo : hasPrefix s "//" = [Path.slash, Path.slash].isPrefixOf (bytes s) := by
    rw [bytes_eq_flatMap]
    exact (isPrefixOf_bytes ['/', '/'] (by simp) s.toList).symm
  unfold localNext nextURL
  simp only [hempty, hone, htwo]
  split_ifs
  · rfl
  · rfl

theorem handleSignedAuthURL_redirect
    (h : Returns (handleSignedAuthURL r host) (.redirect location cookie expires)) :
    bytes location = nextURL (bytes r.nextQuery) := by
  cases h with
  | act b h =>
    cases b with
    | none => cases h.eq
    | some deadline =>
      cases h with
      | act b h =>
        cases b with
        | error e => cases h.eq
        | ok token =>
          cases h.eq
          exact bytes_localNext _

theorem verify_redirect (h : Returns (verify r host) (.redirect location cookie expires)) :
    ∃ form, r.form = some form ∧ bytes location = nextURL (bytes form.next) := by
  unfold verify at h
  cases hform : r.form with
  | none =>
    rw [hform] at h
    cases h.eq
  | some form =>
    refine ⟨form, rfl, ?_⟩
    rw [hform] at h
    cases h with
    | act passed h =>
      cases passed with
      | false => cases h.eq
      | true =>
        cases h with
        | act now h =>
          cases h with
          | act answer h =>
            cases answer with
            | error e => cases h.eq
            | ok token =>
              cases h.eq
              exact bytes_localNext _

end Handlers

/-- Both handlers redirect to `nextURL` of the parameter.  A browser at any
origin stays there if and only if the parameter is replaced by the root, or is
not read with two slashes. -/
theorem redirects_stay_iff (B : Http.Browser) (next : Bytes) :
    (∀ r host location cookie expires,
        Returns (handleSignedAuthURL r host) (.redirect location cookie expires) →
          bytes location = nextURL (bytes r.nextQuery)) ∧
      (∀ r host location cookie expires,
        Returns (verify r host) (.redirect location cookie expires) →
          ∃ form, r.form = some form ∧ bytes location = nextURL (bytes form.next)) ∧
      ((∀ base, B.resolve base (Http.redirect (nextURL next)) = some base) ↔
        (next = [] ∨ [Path.slash].isPrefixOf next = false ∨
          [Path.slash, Path.slash].isPrefixOf next = true) ∨ Http.Doubled next = false) := by
  refine ⟨fun _ _ _ _ _ => handleSignedAuthURL_redirect, fun _ _ _ _ _ => verify_redirect, ?_⟩
  unfold nextURL
  split_ifs with hroot
  · rw [Http.resolve_redirect_iff]
    exact iff_of_true (by decide) (.inl hroot)
  · push Not at hroot
    cases next with
    | nil => exact absurd rfl hroot.1
    | cons b rest =>
      obtain rfl : b = Path.slash := by
        have hprefix := hroot.2.1
        simp only [List.isPrefixOf_cons_cons, List.isPrefixOf_nil_left, Bool.and_true, ne_eq,
          Bool.not_eq_false, beq_iff_eq] at hprefix
        exact hprefix.symm
      rw [Http.resolve_redirect_iff]
      simp only [reduceCtorEq, false_or]
      refine ⟨Or.inr, fun h => h.resolve_left ?_⟩
      rintro (hno | hyes)
      · exact hroot.2.1 hno
      · exact hroot.2.2 hyes

/-- A browser that reads every authority as a host. -/
def plainBrowser : Http.Browser where
  authority := fun _ text => some (text, none)
  other := fun _ _ => none

/-- A browser at `app.test` that redeems a token with a `next` of a slash, a
backslash and a host is sent to that host. -/
theorem redirect_leaves_the_site :
    nextURL (bytes "/\\evil.test/login") = bytes "/\\evil.test/login" ∧
      plainBrowser.resolve ⟨.https, bytes "app.test", none⟩
          (Http.redirect (bytes "/\\evil.test/login")) =
        some ⟨.https, bytes "evil.test", none⟩ := by
  decide

end Firedoze
