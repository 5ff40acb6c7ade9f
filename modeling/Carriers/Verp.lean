import Carriers.ProofKit.Split
import Carriers.ProofKit.Text

/-! Variable envelope return paths.  `verp` writes the bounce address of a recipient, and
`decodeVerp` reads a bounce address back into the list's posting address and the recipient. -/

namespace Carriers

open ProofKit

/-- The separator `+bounce=` between a list's local part and the encoded recipient. -/
def bounceTag : Text := ['+', 'b', 'o', 'u', 'n', 'c', 'e', '=']

/-- The bounce address that encodes `recipient`: its first `@` becomes `=`. -/
def verp (listLocal listDomain recipient : Text) : Text :=
  let encoded := recipient.replace '@' '='
  listLocal ++ bounceTag ++ encoded ++ '@' :: listDomain

/-- The posting address and the recipient that a bounce address encodes.  The last `=` of the
encoded recipient stands for its `@`. -/
def decodeVerp (address : Text) : Option (Text × Text) := do
  let (localPart, domain) ← rsplitOnce '@' address
  let (baseLocal, encoded) ← splitOnce bounceTag localPart
  let (recipientLocal, recipientDomain) ← rsplitOnce '=' encoded
  let recipient := recipientLocal ++ '@' :: recipientDomain
  return (baseLocal ++ '@' :: domain, recipient)

theorem decodeVerp_eq_some {address base recipient : Text} :
    decodeVerp address = some (base, recipient) ↔
      ∃ localPart domain baseLocal encoded recipientLocal recipientDomain,
        rsplitOnce '@' address = some (localPart, domain) ∧
        splitOnce bounceTag localPart = some (baseLocal, encoded) ∧
        rsplitOnce '=' encoded = some (recipientLocal, recipientDomain) ∧
        base = baseLocal ++ '@' :: domain ∧
        recipient = recipientLocal ++ '@' :: recipientDomain := by
  simp only [decodeVerp, Option.bind_eq_bind, Option.bind_eq_some_iff, Prod.exists]
  constructor
  · rintro ⟨l, d, h1, b, e, h2, rl, rd, h3, h4⟩
    have h4 := Option.some.inj h4
    simp only [Prod.mk.injEq] at h4
    exact ⟨l, d, b, e, rl, rd, h1, h2, h3, h4.1.symm, h4.2.symm⟩
  · rintro ⟨l, d, b, e, rl, rd, h1, h2, h3, rfl, rfl⟩
    exact ⟨l, d, h1, b, e, h2, rl, rd, h3, rfl⟩

/-- The tag does not overlap itself, so it is found after any text that lacks it and after no
other. -/
theorem splitOnce_bounceTag {l r : Text} :
    splitOnce bounceTag (l ++ bounceTag ++ r) = some (l, r) ↔ ¬bounceTag <:+: l :=
  splitOnce_append_iff (by decide)

/-- `recipient` can be read back from its encoding: it has an `@`, and no `=` after the first. -/
def Encodable (recipient : Text) : Prop :=
  ∃ before after, recipient = before ++ '@' :: after ∧ '@' ∉ before ∧ '=' ∉ after

theorem replace_first {before after : Text} (absent : '@' ∉ before) :
    (before ++ '@' :: after).replace '@' '=' = before ++ '=' :: after := by
  rw [List.replace_append_right absent, List.replace_cons_self]

/-- The encoded recipient splits at its last `=` into the recipient only if it is encodable. -/
theorem encodable_iff (recipient : Text) :
    Encodable recipient ↔ ∃ before after,
      rsplitOnce '=' (recipient.replace '@' '=') = some (before, after) ∧
        recipient = before ++ '@' :: after := by
  constructor
  · rintro ⟨before, after, rfl, hbefore, hafter⟩
    exact ⟨before, after, by rw [replace_first hbefore, rsplitOnce_append before hafter], rfl⟩
  · rintro ⟨before, after, hsplit, hrecipient⟩
    obtain ⟨hencoded, hafter⟩ := rsplitOnce_sound hsplit
    obtain ⟨first, rest, hfirst, habsent⟩ :=
      List.eq_append_cons_of_mem (show '@' ∈ recipient by simp [hrecipient])
    rw [hfirst, replace_first habsent] at hencoded
    rw [hfirst] at hrecipient
    -- The `@` that the decoder restores must be the first one, which the encoder replaced.
    rcases List.append_eq_append_iff.mp hrecipient with ⟨m, hb, hr⟩ | ⟨m, hb, hr⟩
    · cases m with
      | nil =>
        obtain rfl : rest = after := by simpa using hr
        exact ⟨first, rest, hfirst, habsent, hafter⟩
      | cons x m =>
        have hx : '@' = x := by simpa using congrArg List.head? hr
        rw [hb] at hencoded
        simp [← hx] at hencoded
    · cases m with
      | nil =>
        obtain rfl : after = rest := by simpa using hr
        exact ⟨first, after, hfirst, habsent, hafter⟩
      | cons x m =>
        have hx : '@' = x := by simpa using congrArg List.head? hr
        exact absurd (show '@' ∈ first by simp [hb, ← hx]) habsent

/-- The domain that is split off a bounce address is the one that was put there. -/
theorem decodeVerp_verp_eq_some {l d r base recipient : Text} (hd : '@' ∉ d) :
    decodeVerp (verp l d r) = some (base, recipient) ↔
      ∃ baseLocal encoded before after,
        splitOnce bounceTag (l ++ bounceTag ++ r.replace '@' '=') = some (baseLocal, encoded) ∧
        rsplitOnce '=' encoded = some (before, after) ∧
        base = baseLocal ++ '@' :: d ∧ recipient = before ++ '@' :: after := by
  have haddress : rsplitOnce '@' (verp l d r) =
      some (l ++ bounceTag ++ r.replace '@' '=', d) := rsplitOnce_append _ hd
  rw [decodeVerp_eq_some]
  constructor
  · rintro ⟨localPart, domain, baseLocal, encoded, before, after, h1, h2, h3, hbase, hr⟩
    obtain ⟨rfl, rfl⟩ : l ++ bounceTag ++ r.replace '@' '=' = localPart ∧ d = domain := by
      simpa [haddress] using h1
    exact ⟨baseLocal, encoded, before, after, h2, h3, hbase, hr⟩
  · rintro ⟨baseLocal, encoded, before, after, h2, h3, hbase, hr⟩
    exact ⟨_, _, baseLocal, encoded, before, after, haddress, h2, h3, hbase, hr⟩

/-- `decodeVerp` undoes `verp` exactly when the local part has no tag and the recipient is
encodable. -/
theorem decodeVerp_verp_iff {l d : Text} (r : Text) (hd : '@' ∉ d) :
    decodeVerp (verp l d r) = some (l ++ '@' :: d, r) ↔ ¬bounceTag <:+: l ∧ Encodable r := by
  rw [decodeVerp_verp_eq_some hd]
  constructor
  · rintro ⟨base, encoded, before, after, h2, h3, hbase, hr⟩
    obtain rfl : l = base := List.append_cancel_right hbase
    have absent := splitOnce_first (by decide) h2
    rw [splitOnce_bounceTag.mpr absent] at h2
    obtain rfl : r.replace '@' '=' = encoded := by simpa using h2
    exact ⟨absent, (encodable_iff r).mpr ⟨before, after, h3, hr⟩⟩
  · rintro ⟨absent, encodable⟩
    obtain ⟨before, after, hsplit, hr⟩ := (encodable_iff r).mp encodable
    exact ⟨_, _, before, after, splitOnce_bounceTag.mpr absent, hsplit, rfl, hr⟩

/-- A tag in the local part is found first, and the posting address that is decoded is then too
short to be the one that was encoded. -/
theorem decodeVerp_verp_base {l d r base recipient : Text} (hd : '@' ∉ d)
    (h : decodeVerp (verp l d r) = some (base, recipient)) :
    if bounceTag <:+: l then base.length < (l ++ '@' :: d).length else base = l ++ '@' :: d := by
  obtain ⟨baseLocal, encoded, -, -, h2, -, rfl, -⟩ := (decodeVerp_verp_eq_some hd).mp h
  split
  · rename_i present
    obtain ⟨before, after, hsplit⟩ := splitOnce_exists present
    have hl := splitOnce_sound hsplit
    have whole : l ++ bounceTag ++ r.replace '@' '=' =
        before ++ bounceTag ++ (after ++ bounceTag ++ r.replace '@' '=') := by simp [hl]
    rw [whole, splitOnce_bounceTag.mpr (splitOnce_first (by decide) hsplit)] at h2
    obtain ⟨rfl, -⟩ : before = baseLocal ∧ _ := by simpa using h2
    simp [hl, bounceTag]
    omega
  · rename_i absent
    rw [splitOnce_bounceTag.mpr absent] at h2
    obtain ⟨rfl, -⟩ : l = baseLocal ∧ _ := by simpa using h2
    rfl

/-- The recipient that is decoded after a local part without the tag. -/
theorem decodeVerp_verp_recipient {l d r base recipient : Text} (hd : '@' ∉ d)
    (absent : ¬bounceTag <:+: l) (h : decodeVerp (verp l d r) = some (base, recipient)) :
    ∃ before after, rsplitOnce '=' (r.replace '@' '=') = some (before, after) ∧
      recipient = before ++ '@' :: after := by
  obtain ⟨baseLocal, encoded, before, after, h2, h3, -, hr⟩ := (decodeVerp_verp_eq_some hd).mp h
  rw [splitOnce_bounceTag.mpr absent] at h2
  obtain ⟨-, rfl⟩ : l = baseLocal ∧ r.replace '@' '=' = encoded := by simpa using h2
  exact ⟨before, after, h3, hr⟩

theorem asciiLower_replace (t : Text) :
    asciiLower (t.replace '@' '=') = (asciiLower t).replace '@' '=' := by
  induction t with
  | nil => rfl
  | cons c t ih =>
    by_cases hc : c = '@'
    · simp [hc, asciiLower]
    · have lower : c.toLower ≠ '@' := mt (toLower_eq_iff (by decide)).mp hc
      have step : ∀ (x : Char) (xs : Text), x ≠ '@' →
          (x :: xs).replace '@' '=' = x :: xs.replace '@' '=' := fun x xs hx => by
        rw [List.replace_cons, beq_eq_false_iff_ne.mpr (Ne.symm hx)]
      rw [step c t hc]
      simp only [asciiLower, List.map_cons] at ih ⊢
      rw [step _ _ lower, ih]

/-- `verp` undoes `decodeVerp` on an address with one `@`. -/
theorem verp_decodeVerp {localPart d l r : Text} (hlocal : '@' ∉ localPart) (hd : '@' ∉ d)
    (h : decodeVerp (localPart ++ '@' :: d) = some (l ++ '@' :: d, r)) :
    verp l d r = localPart ++ '@' :: d := by
  obtain ⟨front, domain, base, encoded, before, after, h1, h2, h3, hbase, hr⟩ :=
    decodeVerp_eq_some.mp h
  obtain ⟨rfl, rfl⟩ : localPart = front ∧ d = domain := by
    simpa [rsplitOnce_append _ hd] using h1
  obtain rfl : l = base := List.append_cancel_right hbase
  have hfront := splitOnce_sound h2
  obtain ⟨rfl, -⟩ := rsplitOnce_sound h3
  have hbefore : '@' ∉ before := fun h => hlocal (by simp [hfront, h])
  rw [verp, hr, replace_first hbefore, ← hfront]

/-- Encoding and decoding are inverse exactly where they should be: decoding undoes encoding for
a local part without the tag and an encodable recipient and for nothing else, and encoding undoes
decoding on every address with one `@`. -/
theorem verp_inverse :
    (∀ l d r : Text, '@' ∉ d →
      (decodeVerp (verp l d r) = some (l ++ '@' :: d, r) ↔ ¬bounceTag <:+: l ∧ Encodable r)) ∧
    ∀ localPart d l r : Text, '@' ∉ localPart → '@' ∉ d →
      decodeVerp (localPart ++ '@' :: d) = some (l ++ '@' :: d, r) →
        verp l d r = localPart ++ '@' :: d :=
  ⟨fun _ _ r hd => decodeVerp_verp_iff r hd, fun _ _ _ _ hlocal hd h => verp_decodeVerp hlocal hd h⟩

theorem verp_inverse_dev :
    decodeVerp (verp "dev".toList "lists.example.org".toList "a=b@example.com".toList) =
        some ("dev@lists.example.org".toList, "a=b@example.com".toList) ∧
      verp "dev".toList "lists.example.org".toList "a=b@example.com".toList =
        "dev+bounce=a=b=example.com@lists.example.org".toList := by
  have decoded := (verp_inverse.1 "dev".toList "lists.example.org".toList
    "a=b@example.com".toList (by decide)).mpr
      ⟨by decide, "a=b".toList, "example.com".toList, by decide, by decide, by decide⟩
  have encoded := verp_inverse.2 "dev+bounce=a=b=example.com".toList "lists.example.org".toList
    "dev".toList "a=b@example.com".toList (by decide) (by decide) (by decide)
  exact ⟨decoded, encoded⟩

end Carriers
