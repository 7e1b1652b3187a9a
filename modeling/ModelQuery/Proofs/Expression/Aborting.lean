import ModelQuery.Proofs.Expression.Parts

/-!
# Matchers that may abort

A matcher with a limit aborts where one without would go on. `Restricts` compares two matchers in
this respect: wherever the one does not abort, it does what the other does. The parts of the grammar
respect this order (`restricts_group`), so an abort inside a group is an abort of the group, and
whatever else a member does, it does under any limit.

`Settles` says when a matcher does not abort: an item has no more groups inside one another than
characters, so a limit of that many never matters (`settles_item`). The matcher without a limit,
`unlimited`, is therefore the one with as many levels as characters are left, and it is what the
grammar says it is: a group of such items or a condition (`unlimited_eq`).
-/

namespace ModelQuery

open Expression (Node)

/-- The attempt was given up for good. -/
def Outcome.Aborts {α : Type} : Outcome α → Prop
  | .tooDeep _ => True
  | .matched .. | .failed => False

namespace Matcher

variable {α β : Type}

section Aborts

variable {first : Matcher α} {cursor : Cursor} {frontier : Frontier}
  (h : (first cursor frontier).1.Aborts)
include h

/-- Where the first part aborts, nothing follows. -/
theorem aborts_andThen (second : α → Matcher β) :
    (andThen first second cursor frontier).1.Aborts := by
  unfold andThen
  generalize first cursor frontier = result at h ⊢
  obtain ⟨outcome, updated⟩ := result
  cases outcome with
  | matched value next => exact h.elim
  | failed => exact h.elim
  | tooDeep offset => exact trivial

/-- Where the first alternative aborts, the second one is not tried. -/
theorem aborts_otherwise (second : Matcher α) :
    (otherwise first second cursor frontier).1.Aborts := by
  unfold otherwise
  generalize first cursor frontier = result at h ⊢
  obtain ⟨outcome, updated⟩ := result
  cases outcome with
  | matched value next => exact h.elim
  | failed => exact h.elim
  | tooDeep offset => exact trivial

/-- A construct aborts where what it consists of does. -/
theorem aborts_named (construct : Construct) :
    (named construct first cursor frontier).1.Aborts := by
  unfold named
  generalize first cursor frontier = result at h ⊢
  obtain ⟨outcome, updated⟩ := result
  cases outcome with
  | matched value next => exact h.elim
  | failed => exact h.elim
  | tooDeep offset => exact trivial

end Aborts

/-- The bounded matcher does what the free one does, unless it aborts. -/
def Restricts (bounded free : Matcher α) : Prop :=
  ∀ cursor frontier, (bounded cursor frontier).1.Aborts ∨
    bounded cursor frontier = free cursor frontier

namespace Restricts

/-- Every matcher restricts itself. -/
theorem refl (matcher : Matcher α) : Restricts matcher matcher :=
  fun _ _ ↦ Or.inr rfl

/-- A restriction of a restriction is a restriction. -/
theorem trans {first second third : Matcher α} (h : Restricts first second)
    (h' : Restricts second third) : Restricts first third := by
  intro cursor frontier
  rcases h cursor frontier with habort | heq
  · exact Or.inl habort
  · rw [heq]
    exact h' cursor frontier

/-- Where the free matcher aborts, the bounded one does. -/
theorem aborts {bounded free : Matcher α} (h : Restricts bounded free) {cursor : Cursor}
    {frontier : Frontier} (habort : (free cursor frontier).1.Aborts) :
    (bounded cursor frontier).1.Aborts := by
  rcases h cursor frontier with h | h
  · exact h
  · rw [h]
    exact habort

/-- Two parts in a row abort where one of them does. -/
theorem andThen {first first' : Matcher α} {second second' : α → Matcher β}
    (hfirst : Restricts first first')
    (hsecond : ∀ value, Restricts (second value) (second' value)) :
    Restricts (Matcher.andThen first second) (Matcher.andThen first' second') := by
  intro cursor frontier
  rcases hfirst cursor frontier with habort | heq
  · exact Or.inl (aborts_andThen habort second)
  · unfold Matcher.andThen
    rw [heq]
    generalize first' cursor frontier = result
    obtain ⟨outcome, updated⟩ := result
    cases outcome with
    | matched value next => exact hsecond value next updated
    | failed => exact Or.inr rfl
    | tooDeep offset => exact Or.inr rfl

/-- Two parts in a row abort where one of them does. -/
theorem bind {first first' : Matcher α} {second second' : α → Matcher β}
    (hfirst : Restricts first first')
    (hsecond : ∀ value, Restricts (second value) (second' value)) :
    Restricts (first >>= second) (first' >>= second') :=
  hfirst.andThen hsecond

/-- Behind the same part nothing else matters. -/
theorem behind (first : Matcher α) {second second' : α → Matcher β}
    (h : ∀ value, Restricts (second value) (second' value)) :
    Restricts (first >>= second) (first >>= second') :=
  (refl first).andThen h

/-- An alternative that aborts leaves no other one. -/
theorem otherwise {first first' second second' : Matcher α} (hfirst : Restricts first first')
    (hsecond : Restricts second second') :
    Restricts (Matcher.otherwise first second) (Matcher.otherwise first' second') := by
  intro cursor frontier
  rcases hfirst cursor frontier with habort | heq
  · exact Or.inl (aborts_otherwise habort second)
  · unfold Matcher.otherwise
    rw [heq]
    generalize first' cursor frontier = result
    obtain ⟨outcome, updated⟩ := result
    cases outcome with
    | matched value next => exact Or.inr rfl
    | failed => exact hsecond cursor updated
    | tooDeep offset => exact Or.inr rfl

/-- A construct aborts where what it consists of does. -/
theorem named (construct : Construct) {body body' : Matcher α} (h : Restricts body body') :
    Restricts (Matcher.named construct body) (Matcher.named construct body') := by
  intro cursor frontier
  rcases h cursor frontier with habort | heq
  · exact Or.inl (aborts_named habort construct)
  · unfold Matcher.named
    rw [heq]
    exact Or.inr rfl

/-- A repetition aborts where one of the attempts does. -/
theorem repeated {part part' : Matcher α} (h : Restricts part part') (limit : Nat) :
    Restricts (Matcher.repeated part limit) (Matcher.repeated part' limit) := by
  induction limit with
  | zero => exact refl _
  | succ limit ih =>
      have hmore : ∀ value, Restricts
          (Matcher.andThen (Matcher.repeated part limit) fun values ↦ succeed (value :: values))
          (Matcher.andThen (Matcher.repeated part' limit) fun values ↦ succeed (value :: values)) :=
        fun _ ↦ ih.andThen fun _ ↦ refl _
      exact (h.andThen hmore).otherwise (refl _)

/-- Reading a part as often as it goes aborts where one of the attempts does. -/
theorem many {part part' : Matcher α} (h : Restricts part part') :
    Restricts (Matcher.many part) (Matcher.many part') :=
  fun cursor frontier ↦ h.repeated (cursor.rest.length + 1) cursor frontier

end Restricts

/-! ## Matchers that do not abort -/

/-- The attempt was not given up, and at most this many characters are left behind what it read. -/
inductive Settled (limit : Nat) : Outcome α → Prop where
  | matched (value : α) (next : Cursor) :
      next.rest.length ≤ limit → Settled limit (.matched value next)
  | failed : Settled limit .failed

/-- Where no more than `bound` characters are left, the matcher does not abort, and it puts nothing
back. -/
def Settles (bound : Nat) (matcher : Matcher α) : Prop :=
  ∀ cursor frontier, cursor.rest.length ≤ bound →
    Settled cursor.rest.length (matcher cursor frontier).1

/-- What has settled was not given up. -/
theorem Settled.not_aborts {limit : Nat} {outcome : Outcome α} (h : Settled limit outcome) :
    ¬ outcome.Aborts := by
  cases h with
  | matched value next => exact id
  | failed => exact id

/-- More characters may be left than there are. -/
theorem Settled.mono {limit larger : Nat} {outcome : Outcome α} (h : Settled limit outcome)
    (hle : limit ≤ larger) : Settled larger outcome := by
  cases h with
  | matched value next hnext => exact .matched value next (Nat.le_trans hnext hle)
  | failed => exact .failed

namespace Settles

variable {bound : Nat}

/-- Matching nothing settles. -/
theorem succeed (value : α) : Settles bound (Matcher.succeed value) :=
  fun cursor _ _ ↦ .matched value cursor (Nat.le_refl _)

/-- Two parts in a row settle if both do. -/
theorem andThen {first : Matcher α} {second : α → Matcher β} (hfirst : Settles bound first)
    (hsecond : ∀ value, Settles bound (second value)) :
    Settles bound (Matcher.andThen first second) := by
  intro cursor frontier hbound
  have hsettled := hfirst cursor frontier hbound
  unfold Matcher.andThen
  generalize first cursor frontier = result at hsettled ⊢
  obtain ⟨outcome, updated⟩ := result
  cases hsettled with
  | matched value next hnext =>
      exact (hsecond value next updated (Nat.le_trans hnext hbound)).mono hnext
  | failed => exact .failed

/-- Two parts in a row settle if both do. -/
theorem bind {first : Matcher α} {second : α → Matcher β} (hfirst : Settles bound first)
    (hsecond : ∀ value, Settles bound (second value)) : Settles bound (first >>= second) :=
  hfirst.andThen hsecond

/-- Two alternatives settle if both do. -/
theorem otherwise {first second : Matcher α} (hfirst : Settles bound first)
    (hsecond : Settles bound second) : Settles bound (Matcher.otherwise first second) := by
  intro cursor frontier hbound
  have hsettled := hfirst cursor frontier hbound
  unfold Matcher.otherwise
  generalize first cursor frontier = result at hsettled ⊢
  obtain ⟨outcome, updated⟩ := result
  cases hsettled with
  | matched value next hnext => exact .matched value next hnext
  | failed => exact hsecond cursor updated hbound

/-- A construct settles if what it consists of does. -/
theorem named (construct : Construct) {body : Matcher α} (h : Settles bound body) :
    Settles bound (Matcher.named construct body) := by
  intro cursor frontier hbound
  have hsettled := h cursor frontier hbound
  unfold Matcher.named
  generalize body cursor frontier = result at hsettled ⊢
  obtain ⟨outcome, updated⟩ := result
  cases hsettled with
  | matched value next hnext => exact .matched value next hnext
  | failed => exact .failed

/-- A repetition settles if its part does. -/
theorem repeated {part : Matcher α} (h : Settles bound part) (limit : Nat) :
    Settles bound (Matcher.repeated part limit) := by
  induction limit with
  | zero => exact succeed []
  | succ limit ih =>
      have hmore : ∀ value, Settles bound
          (Matcher.andThen (Matcher.repeated part limit) fun values ↦
            Matcher.succeed (value :: values)) :=
        fun value ↦ ih.andThen fun values ↦ succeed (value :: values)
      exact (h.andThen hmore).otherwise (succeed [])

/-- Reading a part as often as it goes settles if the part does. -/
theorem many {part : Matcher α} (h : Settles bound part) : Settles bound (Matcher.many part) :=
  fun cursor frontier hbound ↦ h.repeated (cursor.rest.length + 1) cursor frontier hbound

/-- A token that loses nothing of the text puts nothing back. -/
theorem token (construct : Construct) {scan : Token.Scanner} (h : scan.Lossless) :
    Settles bound (Matcher.token construct scan) := by
  intro cursor frontier _
  obtain ⟨offset, text⟩ := cursor
  cases hscan : scan text with
  | none =>
      rw [token_failed hscan]
      exact .failed
  | some result =>
      obtain ⟨read, rest⟩ := result
      rw [token_matched hscan]
      refine .matched _ _ ?_
      show rest.length ≤ text.length
      rw [h text read rest hscan, List.length_append]
      exact Nat.le_add_left _ _

/-- Skipping blank space settles. -/
theorem blanks : Settles bound Matcher.blanks := by
  intro cursor frontier _
  exact .matched _ _ (List.dropWhile_suffix _).length_le

end Settles

end Matcher

namespace Grammar

open Matcher Expression

/-! ## The grammar under limits -/

section Restricts

variable {part part' : Matcher Node} (h : Restricts part part')
include h

/-- A group aborts where one of its members does. -/
theorem restricts_group : Restricts (group (some part)) (group (some part')) := by
  have hfurther : Restricts (furtherItem part) (furtherItem part') := by
    unfold furtherItem
    exact .behind _ fun _ ↦ .behind _ fun _ ↦ .behind _ fun _ ↦ h
  have hmembers : Restricts (members part) (members part') := by
    unfold members
    exact .named _ (.bind h fun _ ↦ .bind hfurther.many fun _ ↦ .refl _)
  have hbody : Restricts (body part) (body part') := by
    unfold body
    exact .behind _ fun _ ↦ .bind hmembers fun _ ↦ .refl _
  unfold group
  exact .named _ (.behind _ fun _ ↦ .behind _ fun _ ↦ .behind _ fun _ ↦ .behind _ fun _ ↦
    .behind _ fun _ ↦ .bind hbody fun _ ↦ .refl _)

/-- An item aborts where a member of its group does. -/
theorem restricts_item :
    Restricts (otherwise (group (some part)) condition)
      (otherwise (group (some part')) condition) :=
  (restricts_group h).otherwise (.refl _)

end Restricts

/-- A group that may not be opened aborts where it is opened. -/
theorem restricts_group_none (part : Matcher Node) :
    Restricts (group none) (group (some part)) := by
  unfold group
  exact .named _ (.behind _ fun _ ↦ .behind _ fun _ ↦ .behind _ fun _ ↦ .behind _ fun _ ↦
    .behind _ fun _ _ _ ↦ Or.inl trivial)

variable {bound : Nat}

/-- The body of a group settles where its members do. -/
theorem settles_body {part : Matcher Node} (h : Settles bound part) :
    Settles bound (body part) := by
  have hfurther : Settles bound (furtherItem part) := by
    unfold furtherItem
    exact .bind .blanks fun _ ↦ .bind (.token _ (Token.character_lossless _)) fun _ ↦
      .bind .blanks fun _ ↦ h
  have hmembers : Settles bound (members part) := by
    unfold members
    exact .named _ (.bind h fun _ ↦ .bind hfurther.many fun _ ↦ .succeed _)
  unfold body
  exact .bind .blanks fun _ ↦ .bind hmembers fun _ ↦ .bind .blanks fun _ ↦
    .bind (.token _ (Token.character_lossless _)) fun _ ↦ .succeed _

/-- A group settles where its members do behind at least one character. -/
theorem settles_group {part : Matcher Node} (h : Settles bound part) :
    Settles (bound + 1) (group (some part)) := by
  intro ⟨offset, text⟩ frontier hbound
  have hrun := group_run (some part) offset text frontier
  generalize group (some part) _ frontier = result at hrun ⊢
  have hbody : ∀ {keyword before following : List Char} {outcome : Outcome (List Node)}
      {updated : Frontier}, Split .keyword text keyword before ('(' :: following) →
      body part ⟨offset + Text.byteLength (keyword ++ before) + Text.byteLength ['('], following⟩
        frontier = (outcome, updated) → Settled text.length outcome := by
    intro keyword before following outcome updated hsplit heq
    have hlength : following.length < text.length := by
      rw [hsplit.text_eq, List.length_append, List.length_cons]
      omega
    have hinside : following.length ≤ bound :=
      Nat.le_of_lt_succ (Nat.lt_of_lt_of_le hlength hbound)
    have hsettled := settles_body h ⟨offset + Text.byteLength (keyword ++ before) +
      Text.byteLength ['('], following⟩ frontier hinside
    rw [heq] at hsettled
    exact hsettled.mono (Nat.le_of_lt hlength)
  cases hrun with
  | noKeyword => exact .failed
  | noParenthesis => exact .failed
  | bodyFailed => exact .failed
  | tooDeep _ _ _ hnone => cases hnone
  | matched _ _ _ _ _ next _ hpart hsplit hmatched =>
      cases hpart
      cases hbody hsplit hmatched with
      | matched _ _ hnext => exact .matched _ next hnext
  | bodyTooDeep _ _ _ _ _ _ hpart hsplit hdeep =>
      cases hpart
      exact absurd trivial (hbody hsplit hdeep).not_aborts

/-- Without characters no group is opened. -/
theorem settles_group_none : Settles 0 (group none) := by
  intro ⟨offset, text⟩ frontier hbound
  have hrun := group_run none offset text frontier
  generalize group none _ frontier = result at hrun ⊢
  cases hrun with
  | noKeyword => exact .failed
  | noParenthesis => exact .failed
  | bodyFailed => exact .failed
  | tooDeep keyword before following _ hsplit =>
      have hlength := congrArg List.length hsplit.text_eq
      simp only [List.length_append, List.length_cons] at hlength hbound
      omega
  | matched _ _ _ _ _ _ _ hpart => cases hpart
  | bodyTooDeep _ _ _ _ _ _ hpart => cases hpart

/-- A condition settles. -/
theorem settles_condition : Settles bound condition := by
  intro ⟨offset, text⟩ frontier _
  have hrun := condition_run offset text frontier
  generalize condition _ frontier = result at hrun ⊢
  cases hrun with
  | noName => exact .failed
  | noOperator => exact .failed
  | noValue => exact .failed
  | matched name before rest symbol after following quote raw behind updated hname _ hsymbol _
      hfollowing =>
      refine .matched _ _ ?_
      show behind.length ≤ text.length
      rw [hname.text_eq, hsymbol.text_eq, hfollowing]
      simp only [List.length_append]
      omega

/-- An item settles where no more characters are left than groups may be opened. -/
theorem settles_item (levels : Nat) : Settles levels (item levels) := by
  induction levels with
  | zero => exact settles_group_none.otherwise settles_condition
  | succ levels ih => exact (settles_group ih).otherwise settles_condition

/-! ## Items without a limit -/

/-- A group or a condition, with any number of groups open. -/
def unlimited : Matcher Node := fun cursor frontier ↦
  item cursor.rest.length cursor frontier

/-- One more level makes no difference but where an item aborts. -/
theorem restricts_item_succ (levels : Nat) : Restricts (item levels) (item (levels + 1)) := by
  induction levels with
  | zero => exact (restricts_group_none _).otherwise (.refl _)
  | succ levels ih => exact restricts_item ih

/-- More levels make no difference but where an item aborts. -/
theorem restricts_item_of_le {levels more : Nat} (h : levels ≤ more) :
    Restricts (item levels) (item more) := by
  induction h with
  | refl => exact .refl _
  | step _ ih => exact ih.trans (restricts_item_succ _)

/-- An item without a limit does not abort. -/
theorem unlimited_not_aborts (cursor : Cursor) (frontier : Frontier) :
    ¬ (unlimited cursor frontier).1.Aborts :=
  (settles_item cursor.rest.length cursor frontier (Nat.le_refl _)).not_aborts

/-- A limit makes no difference but where an item aborts. -/
theorem restricts_unlimited (levels : Nat) : Restricts (item levels) unlimited := by
  intro cursor frontier
  -- both are restrictions of the item with the larger number of levels
  have hitem := restricts_item_of_le (Nat.le_max_left levels cursor.rest.length) cursor frontier
  have hfree := restricts_item_of_le (Nat.le_max_right levels cursor.rest.length) cursor frontier
  rcases hfree with habort | hfree
  · exact absurd habort (unlimited_not_aborts cursor frontier)
  · rcases hitem with habort | hitem
    · exact Or.inl habort
    · exact Or.inr (hitem.trans hfree.symm)

/-- An item without a limit is a group of such items or a condition. -/
theorem unlimited_eq : unlimited = otherwise (group (some unlimited)) condition := by
  funext cursor frontier
  have hnext : Restricts (item (cursor.rest.length + 1))
      (otherwise (group (some unlimited)) condition) := restricts_item (restricts_unlimited _)
  have hmore := restricts_item_succ cursor.rest.length cursor frontier
  rcases hmore with habort | hmore
  · exact absurd habort (unlimited_not_aborts cursor frontier)
  · rcases hnext cursor frontier with habort | hnext
    · rw [← hmore] at habort
      exact absurd habort (unlimited_not_aborts cursor frontier)
    · exact hmore.trans hnext

end Grammar

end ModelQuery
