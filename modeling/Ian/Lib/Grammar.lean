import Ian.Lib.Run

/-!
# Grammars and the parsers that decide them

A grammar rule is a relation between a token list, a value it can be read as,
and the tokens left over. Rules are nondeterministic: `Rule` is a monad, so a
rule is written as the sequence of its parts, and `Rule.many` and `Rule.either`
are repetition and choice. There is no lookahead in a rule.

`Spans` says that a rule reads tokens of its own: others that look like them are
read alike, whatever comes after them.

`Decides` says that a deterministic parser decides a rule: it succeeds with the
one reading the rule has when the tokens after it satisfy the follow condition
`F`, throws an expected exception when there is none, and runs out of fuel
exactly on the token lists of `hang`. `Decides.bind` and `Decides.loop` follow
the shape of the parser, a loop being a round and what comes after it;
`Decides.congr` is where a choice made by lookahead is justified.
-/

namespace Ian.Lib

/-- `g toks a rest`: the tokens `toks` can be read as `a`, leaving `rest`. -/
def Rule (τ α : Type) := List τ → α → List τ → Prop

namespace Rule

variable {τ α β : Type}

protected def pure (a : α) : Rule τ α := fun toks b rest => b = a ∧ rest = toks

protected def bind (g : Rule τ α) (f : α → Rule τ β) : Rule τ β :=
  fun toks b rest => ∃ a mid, g toks a mid ∧ f a mid b rest

instance : Monad (Rule τ) where
  pure := Rule.pure
  bind := Rule.bind

/-- Either rule. -/
def either (g g' : Rule τ α) : Rule τ α := fun toks a rest => g toks a rest ∨ g' toks a rest

/-- Any number of items in a row. -/
inductive Many (g : List τ → α → List τ → Prop) : List τ → List α → List τ → Prop
  | nil (toks : List τ) : Many g toks [] toks
  | cons {toks mid rest : List τ} {a : α} {as : List α} :
      g toks a mid → Many g mid as rest → Many g toks (a :: as) rest

def many (g : Rule τ α) : Rule τ (List α) := Many g

/-- The rule takes at least `k` tokens off the front. -/
def Takes (k : Nat) (g : Rule τ α) : Prop :=
  ∀ toks a rest, g toks a rest → rest <:+ toks ∧ rest.length + k ≤ toks.length

theorem Takes.pure (a : α) : Takes 0 (pure a : Rule τ α) := by
  rintro toks b rest ⟨-, rfl⟩
  exact ⟨List.suffix_refl _, Nat.le_refl _⟩

theorem Takes.bind {g : Rule τ α} {f : α → Rule τ β} {k k' : Nat} (hg : Takes k g)
    (hf : ∀ a, Takes k' (f a)) : Takes (k + k') (g >>= f) := by
  rintro toks b rest ⟨a, mid, hga, hfb⟩
  obtain ⟨hsuf, hlen⟩ := hg _ _ _ hga
  obtain ⟨hsuf', hlen'⟩ := hf a _ _ _ hfb
  exact ⟨hsuf'.trans hsuf, by omega⟩

theorem Takes.weaken {g : Rule τ α} {k k' : Nat} (hg : Takes k g) (h : k' ≤ k) : Takes k' g := by
  intro toks a rest hga
  obtain ⟨hsuf, hlen⟩ := hg _ _ _ hga
  exact ⟨hsuf, by omega⟩

theorem Takes.keep {g : Rule τ α} {k n : Nat} (hg : Takes k g) (toks : List τ) (a : α)
    (rest : List τ) (h : g toks a rest) (hn : toks.length < n) : rest.length < n := by
  have hlen := (hg _ _ _ h).2
  omega

theorem Takes.drop {g : Rule τ α} {n : Nat} (hg : Takes 1 g) (toks : List τ) (a : α)
    (rest : List τ) (h : g toks a rest) (hn : toks.length < n + 1) : rest.length < n := by
  have hlen := (hg _ _ _ h).2
  omega

theorem Takes.either {g g' : Rule τ α} {k : Nat} (hg : Takes k g) (hg' : Takes k g') :
    Takes k (either g g') := by
  rintro toks a rest (h | h)
  · exact hg _ _ _ h
  · exact hg' _ _ _ h

theorem Takes.many {g : Rule τ α} {k : Nat} (hg : Takes k g) : Takes 0 (many g) := by
  intro toks as rest h
  induction h with
  | nil toks => exact ⟨List.suffix_refl _, Nat.le_refl _⟩
  | cons hga _ ih =>
    obtain ⟨hsuf, hlen⟩ := hg _ _ _ hga
    exact ⟨ih.1.trans hsuf, by omega⟩

/-- Each of the items is read where it stands. -/
theorem Takes.mem {g : Rule τ α} {k : Nat} (hg : Takes k g) {toks rest : List τ} {as : List α}
    (h : Many g toks as rest) {a : α} (ha : a ∈ as) :
    ∃ start stop, start <:+ toks ∧ g start a stop := by
  induction h with
  | nil toks => cases ha
  | @cons toks mid _ _ _ hga _ ih =>
    rcases List.mem_cons.mp ha with rfl | ha
    · exact ⟨toks, mid, List.suffix_refl _, hga⟩
    · obtain ⟨start, stop, hsuf, h⟩ := ih ha
      exact ⟨start, stop, hsuf.trans (hg _ _ _ hga).1, h⟩

/-- `P` holds of every value the rule reads. -/
def Yields (P : α → Prop) (g : Rule τ α) : Prop := ∀ toks a rest, g toks a rest → P a

theorem Yields.pure {P : α → Prop} {a : α} (h : P a) : Yields P (pure a : Rule τ α) := by
  rintro toks _ rest ⟨rfl, -⟩
  exact h

theorem Yields.bind {P : β → Prop} {g : Rule τ α} {f : α → Rule τ β} (hf : ∀ a, Yields P (f a)) :
    Yields P (g >>= f) := by
  rintro toks b rest ⟨a, mid, -, hb⟩
  exact hf a mid b rest hb

/-- Every value the rule reads has a part that `inner` reads inside it. -/
def Contains (inner : Rule τ β) (part : α → β) (g : Rule τ α) : Prop :=
  ∀ toks a rest, g toks a rest → ∃ start stop, start <:+ toks ∧ inner start (part a) stop

variable {γ : Type}

/-- The part comes later. -/
theorem Contains.later {inner : Rule τ β} {part : γ → β} {g : Rule τ α} {f : α → Rule τ γ} {k : Nat}
    (hg : Takes k g) (hf : ∀ a, Contains inner part (f a)) : Contains inner part (g >>= f) := by
  rintro toks c rest ⟨a, mid, ha, hc⟩
  obtain ⟨start, stop, hsuf, hread⟩ := hf a mid c rest hc
  exact ⟨start, stop, hsuf.trans (hg toks a mid ha).1, hread⟩

/-- The part comes next. -/
theorem Contains.next {inner : Rule τ β} {part : γ → β} {f : β → Rule τ γ}
    (hf : ∀ b, Yields (fun c => part c = b) (f b)) : Contains inner part (inner >>= f) := by
  rintro toks c rest ⟨b, mid, hb, hc⟩
  exact ⟨toks, mid, List.suffix_refl toks, hf b mid c rest hc ▸ hb⟩

/-- Tokens of the kinds `ks`, whatever comes after them, are read as a value that
`e` takes to `d`. -/
def ReadsAs {κ δ : Type} (kind : τ → κ) (e : α → δ) (g : Rule τ α) (ks : List κ) (d : δ) : Prop :=
  ∀ toks rest, toks.map kind = ks → ∃ a, g (toks ++ rest) a rest ∧ e a = d

variable {κ δ ζ : Type} {kind : τ → κ} {e : α → δ} {d : β → ζ} {ks ks' : List κ}

theorem ReadsAs.pure (a : α) : ReadsAs kind e (pure a : Rule τ α) [] (e a) := by
  intro toks rest hkinds
  obtain rfl := List.map_eq_nil_iff.mp hkinds
  exact ⟨a, ⟨rfl, rfl⟩, rfl⟩

theorem ReadsAs.bind {g : Rule τ α} {f : α → Rule τ β} {x : δ} {y : ζ} (hg : ReadsAs kind e g ks x)
    (hf : ∀ a, e a = x → ReadsAs kind d (f a) ks' y) : ReadsAs kind d (g >>= f) (ks ++ ks') y := by
  intro toks rest hkinds
  obtain ⟨own, own', rfl, hown, hown'⟩ := List.map_eq_append_iff.mp hkinds
  obtain ⟨a, ha, hx⟩ := hg own (own' ++ rest) hown
  obtain ⟨b, hb, hy⟩ := hf a hx own' rest hown'
  exact ⟨b, ⟨a, own' ++ rest, List.append_assoc own own' rest ▸ ha, hb⟩, hy⟩

theorem ReadsAs.left {g g' : Rule τ α} {x : δ} (h : ReadsAs kind e g ks x) :
    ReadsAs kind e (either g g') ks x := by
  intro toks rest hkinds
  obtain ⟨a, ha, hx⟩ := h toks rest hkinds
  exact ⟨a, Or.inl ha, hx⟩

theorem ReadsAs.right {g g' : Rule τ α} {x : δ} (h : ReadsAs kind e g' ks x) :
    ReadsAs kind e (either g g') ks x := by
  intro toks rest hkinds
  obtain ⟨a, ha, hx⟩ := h toks rest hkinds
  exact ⟨a, Or.inr ha, hx⟩

theorem Many.append {g : List τ → α → List τ → Prop} {toks mid rest : List τ} {as bs : List α}
    (h : Many g toks as mid) (h' : Many g mid bs rest) : Many g toks (as ++ bs) rest := by
  induction h with
  | nil toks => exact h'
  | cons ha _ ih => exact .cons ha (ih h')

theorem ReadsAs.none {g : Rule τ α} : ReadsAs kind (List.map e) (many g) [] [] := by
  intro toks rest hkinds
  obtain rfl := List.map_eq_nil_iff.mp hkinds
  exact ⟨[], .nil rest, rfl⟩

theorem ReadsAs.one {g : Rule τ α} {x : δ} (h : ReadsAs kind e g ks x) :
    ReadsAs kind (List.map e) (many g) ks [x] := by
  intro toks rest hkinds
  obtain ⟨a, ha, rfl⟩ := h toks rest hkinds
  exact ⟨[a], .cons ha (.nil rest), rfl⟩

/-- Items, and more items after them. -/
theorem ReadsAs.append {g : Rule τ α} {xs xs' : List δ}
    (h : ReadsAs kind (List.map e) (many g) ks xs)
    (h' : ReadsAs kind (List.map e) (many g) ks' xs') :
    ReadsAs kind (List.map e) (many g) (ks ++ ks') (xs ++ xs') := by
  intro toks rest hkinds
  obtain ⟨own, own', rfl, hown, hown'⟩ := List.map_eq_append_iff.mp hkinds
  obtain ⟨as, has, rfl⟩ := h own (own' ++ rest) hown
  obtain ⟨as', has', rfl⟩ := h' own' rest hown'
  exact ⟨as ++ as', List.append_assoc own own' rest ▸ has.append has', List.map_append⟩

/-- What `g` reads are tokens of its own: others of the same kinds are read by
`g'` as a value that `e` cannot tell from it, whatever comes after them. -/
def Spans {κ δ : Type} (kind : τ → κ) (e : α → δ) (g g' : Rule τ α) : Prop :=
  ∀ toks a rest, g toks a rest → ∃ own, toks = own ++ rest ∧
    ReadsAs kind e g' (own.map kind) (e a)

theorem Spans.pure {a a' : α} (h : e a = e a') :
    Spans kind e (pure a : Rule τ α) (pure a') := by
  rintro toks _ rest ⟨rfl, rfl⟩
  exact ⟨[], rfl, h ▸ .pure a'⟩

theorem Spans.bind {g g' : Rule τ α} {f f' : α → Rule τ β} (hg : Spans kind e g g')
    (hf : ∀ a a', e a = e a' → Spans kind d (f a) (f' a')) :
    Spans kind d (g >>= f) (g' >>= f') := by
  rintro toks b rest ⟨a, mid, ha, hb⟩
  obtain ⟨own, rfl, hreads⟩ := hg toks a mid ha
  -- Which tokens come next does not depend on the value read before them.
  obtain ⟨own', hmid, _⟩ := hf a _ (hreads own mid rfl).choose_spec.2.symm mid b rest hb
  refine ⟨own ++ own', by rw [hmid, List.append_assoc], ?_⟩
  rw [List.map_append]
  refine hreads.bind fun a' hsame => ?_
  obtain ⟨own'', hmid', hreads'⟩ := hf a a' hsame.symm mid b rest hb
  rwa [List.append_cancel_right (hmid.symm.trans hmid')]

/-- The values are the same. -/
theorem Spans.bind_same {g g' : Rule τ α} {f f' : α → Rule τ β} (hg : Spans kind id g g')
    (hf : ∀ a, Spans kind d (f a) (f' a)) : Spans kind d (g >>= f) (g' >>= f') := by
  refine hg.bind fun a a' hsame => ?_
  obtain rfl : a = a' := hsame
  exact hf a

theorem Spans.either {g g' h h' : Rule τ α} (hg : Spans kind e g g') (hh : Spans kind e h h') :
    Spans kind e (either g h) (either g' h') := by
  rintro toks a rest (hread | hread)
  · obtain ⟨own, rfl, hreads⟩ := hg toks a rest hread
    exact ⟨own, rfl, hreads.left⟩
  · obtain ⟨own, rfl, hreads⟩ := hh toks a rest hread
    exact ⟨own, rfl, hreads.right⟩

theorem Spans.many {g g' : Rule τ α} (hg : Spans kind e g g') :
    Spans kind (List.map e) (many g) (many g') := by
  intro toks as rest h
  induction h with
  | nil toks => exact ⟨[], rfl, .none⟩
  | @cons toks mid rest a as ha _ ih =>
    obtain ⟨own, rfl, hreads⟩ := hg toks a mid ha
    obtain ⟨own', rfl, hreads'⟩ := ih
    refine ⟨own ++ own', (List.append_assoc own own' rest).symm, ?_⟩
    rw [List.map_append]
    exact hreads.one.append hreads'

theorem Many.starts {g : List τ → α → List τ → Prop} {toks rest : List τ} {as : List α}
    (h : Many g toks as rest) : toks = rest ∨ ∃ a mid, g toks a mid := by
  cases h with
  | nil => exact Or.inl rfl
  | cons ha _ => exact Or.inr ⟨_, _, ha⟩

/-- Items are read exactly where there are tokens. -/
theorem Many.nil_iff {g : Rule τ α} (hg : Takes 1 g) {own rest : List τ} {as : List α}
    (h : Many g (own ++ rest) as rest) : as = [] ↔ own = [] := by
  generalize htoks : own ++ rest = toks at h
  cases h with
  | nil => exact ⟨fun _ => List.append_left_eq_self.mp htoks, fun _ => rfl⟩
  | cons ha has =>
    have hmid := (hg _ _ _ ha).2
    have hrest := (hg.many _ _ _ has).1.length_le
    constructor
    · intro habsurd
      cases habsurd
    · rintro rfl
      subst htoks
      rw [List.nil_append] at hmid
      omega

/-- The items come to their end in one place only, if each of them does. -/
theorem Many.end_unique {g : List τ → α → List τ → Prop}
    (hg : ∀ toks a a' rest rest', g toks a rest → g toks a' rest' → rest = rest')
    {toks rest rest' : List τ} {as as' : List α} (h : Many g toks as rest)
    (h' : Many g toks as' rest') (hend : ∀ a mid, ¬g rest a mid) (hend' : ∀ a mid, ¬g rest' a mid) :
    rest = rest' := by
  induction h generalizing as' with
  | nil toks =>
    cases h' with
    | nil => rfl
    | cons ha _ => exact absurd ha (hend _ _)
  | cons ha _ ih =>
    cases h' with
    | nil => exact absurd ha (hend' _ _)
    | cons ha' has' =>
      obtain rfl := hg _ _ _ _ _ ha ha'
      exact ih has' hend

end Rule

open Rule

section

variable {σ τ ε α β γ : Type}

/-- What a parser answers on `toks`: the one reading that `F` can follow, or an
expected exception if there is none, or no answer if `toks` is in `hang`. -/
inductive Answer (view : σ → List τ) (expected : ε → Prop) (F : List τ → Prop) (g : Rule τ α)
    (hang : List τ → Prop) (toks : List τ) : Outcome ε α × σ → Prop
  | ok {a : α} {s : σ} : g toks a (view s) →
      (∀ b rest, g toks b rest → F rest → b = a ∧ rest = view s) → ¬hang toks →
      Answer view expected F g hang toks (.ok a, s)
  | throw {e : ε} {s : σ} : expected e → (∀ b rest, g toks b rest → ¬F rest) → ¬hang toks →
      Answer view expected F g hang toks (.throw e, s)
  | outOfFuel {s : σ} : hang toks → (∀ b rest, g toks b rest → ¬F rest) →
      Answer view expected F g hang toks (.outOfFuel, s)

theorem Answer.reads {view : σ → List τ} {expected : ε → Prop} {F : List τ → Prop} {g : Rule τ α}
    {hang : List τ → Prop} {toks : List τ} {result : Outcome ε α × σ} {a : α}
    (h : Answer view expected F g hang toks result) (hok : result.1 = .ok a) :
    g toks a (view result.2) := by
  cases h with
  | ok hg _ _ =>
    cases hok
    exact hg
  | throw _ _ _ => cases hok
  | outOfFuel _ _ => cases hok

/-- On every state that satisfies `P` and has fewer than `n` tokens left, `m`
decides the rule `g`. -/
def Decides (view : σ → List τ) (expected : ε → Prop) (n : Nat) (P : σ → Prop)
    (F : List τ → Prop) (g : Rule τ α) (hang : List τ → Prop) (m : Run σ ε α) : Prop :=
  ∀ s, P s → (view s).length < n → Answer view expected F g hang (view s) (m.run s)

variable {view : σ → List τ} {expected : ε → Prop} {n n' : Nat} {P P' : σ → Prop}
  {F F' : List τ → Prop}

theorem Decides.mono {g : Rule τ α} {hang : List τ → Prop} {m : Run σ ε α}
    (hm : Decides view expected n P F g hang m) (hP : ∀ s, P' s → P s) (hn : n' ≤ n) :
    Decides view expected n' P' F g hang m :=
  fun s hs hlen => hm s (hP s hs) (Nat.lt_of_lt_of_le hlen hn)

/-- Where a rule is decided it has one reading. -/
theorem Decides.unique {g : Rule τ α} {hang : List τ → Prop} {m : Run σ ε α}
    (hm : Decides view expected n P F g hang m) {s : σ} (hP : P s) (hn : (view s).length < n)
    {a a' : α} {rest rest' : List τ} (h : g (view s) a rest) (hF : F rest)
    (h' : g (view s) a' rest') (hF' : F rest') : a = a' ∧ rest = rest' := by
  have hans := hm s hP hn
  generalize m.run s = r at hans
  cases hans with
  | ok _ huniq _ =>
    obtain ⟨rfl, rfl⟩ := huniq a rest h hF
    obtain ⟨rfl, rfl⟩ := huniq a' rest' h' hF'
    exact ⟨rfl, rfl⟩
  | throw _ hnone _ => exact absurd hF (hnone a rest h)
  | outOfFuel _ hnone => exact absurd hF (hnone a rest h)

/-- Replace the rule by one that has the same readings on the states in
question, as far as `F'` can follow them. -/
theorem Decides.congr {g g' : Rule τ α} {H H' : List τ → Prop} {m : Run σ ε α}
    (hm : Decides view expected n P F g H m)
    (hsound : ∀ s, P s → ∀ a rest, g (view s) a rest → g' (view s) a rest)
    (hcomplete : ∀ s, P s → ∀ a rest, g' (view s) a rest → F' rest → g (view s) a rest ∧ F rest)
    (hhang : ∀ s, P s → (H (view s) ↔ H' (view s))) :
    Decides view expected n P F' g' H' m := by
  intro s hP hlen
  have hs := hsound s hP
  have hc := hcomplete s hP
  have hh := hhang s hP
  have hans := hm s hP hlen
  generalize m.run s = r at hans
  cases hans with
  | ok hg huniq hno =>
    refine .ok (hs _ _ hg) (fun b rest hb hF => ?_) (fun hang => hno (hh.mpr hang))
    obtain ⟨hgb, hF'⟩ := hc b rest hb hF
    exact huniq b rest hgb hF'
  | throw he hnone hno =>
    refine .throw he (fun b rest hb hF => ?_) (fun hang => hno (hh.mpr hang))
    obtain ⟨hgb, hF'⟩ := hc b rest hb hF
    exact hnone b rest hgb hF'
  | outOfFuel hang hnone =>
    refine .outOfFuel (hh.mp hang) (fun b rest hb hF => ?_)
    obtain ⟨hgb, hF'⟩ := hc b rest hb hF
    exact hnone b rest hgb hF'

theorem Decides.pure (a : α) :
    Decides view expected n P F (pure a) (fun _ => False) (pure a : Run σ ε α) := by
  intro s _ _
  refine .ok ⟨rfl, rfl⟩ ?_ not_false
  rintro b rest ⟨rfl, rfl⟩ _
  exact ⟨rfl, rfl⟩

/-- One parser after the other. What the second one can read, or hang on, must
be able to follow the first; and the second one need only decide its rule where
the first can leave it, which `R` says. -/
theorem Decides.bindOn {g : Rule τ α} {g' : α → Rule τ β} {hang : List τ → Prop}
    {hang' : α → List τ → Prop} {m : Run σ ε α} {f : α → Run σ ε β} {k : α → Nat}
    {R : α → List τ → Prop} (hm : Decides view expected n P F g hang m)
    (hf : ∀ a, Decides view expected (k a) (fun s => R a (view s)) F' (g' a) (hang' a) (f a))
    (hleft : ∀ toks a rest, g toks a rest → toks.length < n → R a rest ∧ rest.length < k a)
    (hfollow : ∀ a mid b rest, g' a mid b rest → F' rest → F mid)
    (hhang : ∀ a mid, hang' a mid → F mid) :
    Decides view expected n P F' (g >>= g')
      (fun toks => hang toks ∨ ∃ a mid, g toks a mid ∧ hang' a mid) (m >>= f) := by
  intro s hP hn
  have hans := hm s hP hn
  obtain ⟨o, s', hrun⟩ : ∃ o s', m.run s = (o, s') := ⟨_, _, rfl⟩
  rw [hrun] at hans
  cases hans with
  | @ok a _ hg huniq hno =>
    rw [Run.bind_ok hrun]
    obtain ⟨hR, hlen⟩ := hleft _ _ _ hg hn
    have hthen := hf a s' hR hlen
    -- The first reading is the only one, so whatever comes next starts there.
    have hmid : ∀ a' mid, g (view s) a' mid → F mid → a' = a ∧ mid = view s' := huniq
    have hnohang : ¬hang' a (view s') →
        ¬(hang (view s) ∨ ∃ a mid, g (view s) a mid ∧ hang' a mid) := by
      rintro hno' (h | ⟨a', mid, h1, h2⟩)
      · exact hno h
      · obtain ⟨rfl, rfl⟩ := hmid a' mid h1 (hhang a' mid h2)
        exact hno' h2
    have hnone : (∀ b rest, g' a (view s') b rest → ¬F' rest) →
        ∀ b rest, (g >>= g') (view s) b rest → ¬F' rest := by
      rintro hnone b rest ⟨a', mid, h1, h2⟩ hF
      obtain ⟨rfl, rfl⟩ := hmid a' mid h1 (hfollow _ _ _ _ h2 hF)
      exact hnone b rest h2 hF
    generalize (f a).run s' = r at hthen
    cases hthen with
    | ok hg' huniq' hno' =>
      refine .ok ⟨a, _, hg, hg'⟩ ?_ (hnohang hno')
      rintro b rest ⟨a', mid, h1, h2⟩ hF
      obtain ⟨rfl, rfl⟩ := hmid a' mid h1 (hfollow _ _ _ _ h2 hF)
      exact huniq' b rest h2 hF
    | throw he hnone' hno' => exact .throw he (hnone hnone') (hnohang hno')
    | outOfFuel hang hnone' => exact .outOfFuel (Or.inr ⟨a, _, hg, hang⟩) (hnone hnone')
  | throw he hnone hno =>
    rw [Run.bind_throw hrun]
    refine .throw he ?_ ?_
    · rintro b rest ⟨a, mid, h1, h2⟩ hF
      exact hnone a mid h1 (hfollow _ _ _ _ h2 hF)
    · rintro (h | ⟨a, mid, h1, h2⟩)
      · exact hno h
      · exact hnone a mid h1 (hhang a mid h2)
  | outOfFuel hang hnone =>
    rw [Run.bind_outOfFuel hrun]
    refine .outOfFuel (Or.inl hang) ?_
    rintro b rest ⟨a, mid, h1, h2⟩ hF
    exact hnone a mid h1 (hfollow _ _ _ _ h2 hF)

theorem Decides.bind {g : Rule τ α} {g' : α → Rule τ β} {hang : List τ → Prop}
    {hang' : α → List τ → Prop} {m : Run σ ε α} {f : α → Run σ ε β}
    (hm : Decides view expected n P F g hang m)
    (hf : ∀ a, Decides view expected n' (fun _ => True) F' (g' a) (hang' a) (f a))
    (hlen : ∀ toks a rest, g toks a rest → toks.length < n → rest.length < n')
    (hfollow : ∀ a mid b rest, g' a mid b rest → F' rest → F mid)
    (hhang : ∀ a mid, hang' a mid → F mid) :
    Decides view expected n P F' (g >>= g')
      (fun toks => hang toks ∨ ∃ a mid, g toks a mid ∧ hang' a mid) (m >>= f) :=
  Decides.bindOn (R := fun _ _ => True) hm hf
    (fun toks a rest hg hn => ⟨trivial, hlen toks a rest hg hn⟩) hfollow hhang

/-- One parser after the other, when the first one cannot hang. -/
theorem Decides.seqHang {g : Rule τ α} {g' : α → Rule τ β} {hang' : α → List τ → Prop}
    {m : Run σ ε α} {f : α → Run σ ε β}
    (hm : Decides view expected n P F g (fun _ => False) m)
    (hf : ∀ a, Decides view expected n' (fun _ => True) F' (g' a) (hang' a) (f a))
    (hlen : ∀ toks a rest, g toks a rest → toks.length < n → rest.length < n')
    (hfollow : ∀ a mid b rest, g' a mid b rest → F' rest → F mid)
    (hhang : ∀ a mid, hang' a mid → F mid) :
    Decides view expected n P F' (g >>= g') (fun toks => ∃ a mid, g toks a mid ∧ hang' a mid)
      (m >>= f) := by
  refine (Decides.bind hm hf hlen hfollow hhang).congr (fun _ _ _ _ h => h)
    (fun _ _ _ _ h hF => ⟨h, hF⟩) fun _ _ => ?_
  rw [false_or]

/-- One parser after the other, when the second one cannot hang. -/
theorem Decides.hangSeq {g : Rule τ α} {g' : α → Rule τ β} {hang : List τ → Prop}
    {m : Run σ ε α} {f : α → Run σ ε β} (hm : Decides view expected n P F g hang m)
    (hf : ∀ a, Decides view expected n' (fun _ => True) F' (g' a) (fun _ => False) (f a))
    (hlen : ∀ toks a rest, g toks a rest → toks.length < n → rest.length < n')
    (hfollow : ∀ a mid b rest, g' a mid b rest → F' rest → F mid) :
    Decides view expected n P F' (g >>= g') hang (m >>= f) := by
  refine (Decides.bind hm hf hlen hfollow fun _ _ h => h.elim).congr (fun _ _ _ _ h => h)
    (fun _ _ _ _ h hF => ⟨h, hF⟩) fun _ _ => ?_
  simp only [and_false, exists_false, or_false]

/-- One parser after the other, when anything can follow the first. -/
theorem Decides.andThen {g : Rule τ α} {g' : α → Rule τ β} {m : Run σ ε α} {f : α → Run σ ε β}
    {k : Nat} (hm : Decides view expected n P (fun _ => True) g (fun _ => False) m)
    (htakes : Takes k g)
    (hf : ∀ a, Decides view expected n (fun _ => True) F' (g' a) (fun _ => False) (f a)) :
    Decides view expected n P F' (g >>= g') (fun _ => False) (m >>= f) :=
  hm.hangSeq hf htakes.keep fun _ _ _ _ _ _ => trivial

theorem Decides.andThenHang {g : Rule τ α} {g' : α → Rule τ β} {hang' : α → List τ → Prop}
    {m : Run σ ε α} {f : α → Run σ ε β} {k : Nat}
    (hm : Decides view expected n P (fun _ => True) g (fun _ => False) m) (htakes : Takes k g)
    (hf : ∀ a, Decides view expected n (fun _ => True) F' (g' a) (hang' a) (f a)) :
    Decides view expected n P F' (g >>= g') (fun toks => ∃ a mid, g toks a mid ∧ hang' a mid)
      (m >>= f) :=
  hm.seqHang hf htakes.keep (fun _ _ _ _ _ _ => trivial) fun _ _ _ => trivial

/-! ## Loops -/

/-- What one round of a loop reads at loop value `b`: an item, or nothing where
the loop stops. -/
def round (item : Rule τ α) (Stop : List τ → Prop) (step : β → α → β) (finish : β → γ) (b : β) :
    Rule τ (Iter β γ) :=
  fun toks i rest => (∃ a, item toks a rest ∧ i = .again (step b a)) ∨
    (Stop toks ∧ rest = toks ∧ i = .done (finish b))

/-- A round that reads an item. -/
theorem Decides.roundItem {δ : Type} {g : Rule τ δ} {f : δ → α} {hang : List τ → Prop}
    {m : Run σ ε δ} {item : Rule τ α} {Stop : List τ → Prop} {step : β → α → β} {finish : β → γ}
    {b : β} (hm : Decides view expected n P F g hang m)
    (hitem : ∀ s, P s → ∀ a rest, item (view s) a rest ↔ ∃ d, g (view s) d rest ∧ a = f d)
    (hno : ∀ s, P s → ¬Stop (view s)) :
    Decides view expected n P F (round item Stop step finish b) hang
      (m >>= fun d => Pure.pure (.again (step b (f d)))) := by
  intro s hP hn
  have hans := hm s hP hn
  have hi := hitem s hP
  -- Here a round can only read an item, so its readings are those of the item.
  have hround : ∀ i rest, round item Stop step finish b (view s) i rest →
      ∃ d, g (view s) d rest ∧ i = .again (step b (f d)) := by
    rintro i rest (⟨a, ha, rfl⟩ | ⟨hstop, _, _⟩)
    · obtain ⟨d, hd, rfl⟩ := (hi a rest).mp ha
      exact ⟨d, hd, rfl⟩
    · exact absurd hstop (hno s hP)
  obtain ⟨o, s', hrun⟩ : ∃ o s', m.run s = (o, s') := ⟨_, _, rfl⟩
  rw [hrun] at hans
  cases hans with
  | @ok d _ hg huniq hnohang =>
    rw [Run.bind_ok hrun]
    refine .ok (Or.inl ⟨f d, (hi _ _).mpr ⟨d, hg, rfl⟩, rfl⟩) ?_ hnohang
    intro i rest h hF
    obtain ⟨d', hd', rfl⟩ := hround i rest h
    obtain ⟨rfl, rfl⟩ := huniq d' rest hd' hF
    exact ⟨rfl, rfl⟩
  | throw he hnone hnohang =>
    rw [Run.bind_throw hrun]
    refine .throw he ?_ hnohang
    intro i rest h
    obtain ⟨d', hd', rfl⟩ := hround i rest h
    exact hnone d' rest hd'
  | outOfFuel hang' hnone =>
    rw [Run.bind_outOfFuel hrun]
    refine .outOfFuel hang' ?_
    intro i rest h
    obtain ⟨d', hd', rfl⟩ := hround i rest h
    exact hnone d' rest hd'

/-- A round where the loop stops. -/
theorem Decides.roundStop {hang : List τ → Prop} {item : Rule τ α} {Stop : List τ → Prop}
    {step : β → α → β} {finish : β → γ} {b : β} (hstop : ∀ s, P s → Stop (view s))
    (hitem : ∀ s, P s → ∀ a rest, ¬item (view s) a rest) (hno : ∀ s, P s → ¬hang (view s)) :
    Decides view expected n P F (round item Stop step finish b) hang
      (Pure.pure (.done (finish b)) : Run σ ε (Iter β γ)) := by
  intro s hP _
  refine .ok (Or.inr ⟨hstop s hP, rfl, rfl⟩) ?_ (hno s hP)
  rintro i rest (⟨a, ha, rfl⟩ | ⟨_, rfl, rfl⟩) _
  · exact absurd ha (hitem s hP a rest)
  · exact ⟨rfl, rfl⟩

theorem many_follow {item : Rule τ α} {toks rest : List τ} {as : List α}
    (hitem : ∀ toks a rest, item toks a rest → F toks) (h : Many item toks as rest)
    (hF : F rest) : F toks := by
  cases h with
  | nil toks => exact hF
  | cons ha _ => exact hitem _ _ _ ha

/-- What a loop reads from loop value `b` on. -/
def loopRule (item : Rule τ α) (Stop : List τ → Prop) (step : β → α → β) (finish : β → γ) (b : β) :
    Rule τ γ :=
  fun toks c rest => ∃ as, Many item toks as rest ∧ Stop rest ∧ c = finish (as.foldl step b)

/-- Where a loop hangs. -/
def loopHangs (item : Rule τ α) (hang : List τ → Prop) (toks : List τ) : Prop :=
  ∃ as rest, Many item toks as rest ∧ hang rest

/-- What a loop reads after a round. -/
def afterRound (item : Rule τ α) (Stop : List τ → Prop) (step : β → α → β) (finish : β → γ) :
    Iter β γ → Rule τ γ
  | .again b => loopRule item Stop step finish b
  | .done c => fun toks c' rest => c' = c ∧ rest = toks ∧ Stop toks

/-- Where a loop hangs after a round. -/
def hangsAfter (item : Rule τ α) (hang : List τ → Prop) : Iter β γ → List τ → Prop
  | .again _ => loopHangs item hang
  | .done _ => fun _ => False

theorem round_afterRound {item : Rule τ α} {Stop : List τ → Prop} {step : β → α → β}
    {finish : β → γ} {b : β} {toks rest : List τ} {c : γ} :
    (round item Stop step finish b >>= afterRound item Stop step finish) toks c rest ↔
      loopRule item Stop step finish b toks c rest := by
  constructor
  · rintro ⟨i, mid, ⟨a, ha, rfl⟩ | ⟨hstop, rfl, rfl⟩, hafter⟩
    · obtain ⟨as, has, hend, rfl⟩ := hafter
      exact ⟨a :: as, .cons ha has, hend, rfl⟩
    · obtain ⟨rfl, rfl, _⟩ := hafter
      exact ⟨[], .nil _, hstop, rfl⟩
  · rintro ⟨as, has, hend, rfl⟩
    cases has with
    | nil => exact ⟨.done (finish b), toks, Or.inr ⟨hend, rfl, rfl⟩, rfl, rfl, hend⟩
    | @cons _ mid _ a as ha has =>
      exact ⟨.again (step b a), mid, Or.inl ⟨a, ha, rfl⟩, as, has, hend, rfl⟩

theorem round_hangsAfter {item : Rule τ α} {Stop hang : List τ → Prop} {step : β → α → β}
    {finish : β → γ} {b : β} {toks : List τ} :
    (hang toks ∨ ∃ i mid, round item Stop step finish b toks i mid ∧ hangsAfter item hang i mid) ↔
      loopHangs item hang toks := by
  constructor
  · rintro (h | ⟨i, mid, ⟨a, ha, rfl⟩ | ⟨_, rfl, rfl⟩, hafter⟩)
    · exact ⟨[], toks, .nil _, h⟩
    · obtain ⟨as, rest, has, h⟩ := hafter
      exact ⟨a :: as, rest, .cons ha has, h⟩
    · exact hafter.elim
  · rintro ⟨as, rest, has, h⟩
    cases has with
    | nil => exact Or.inl h
    | @cons _ mid _ a as ha has =>
      exact Or.inr ⟨.again (step b a), mid, Or.inl ⟨a, ha, rfl⟩, as, rest, has, h⟩

/-- A loop whose rounds read items reads many items, up to where it stops. The
items shorten the token list, so the fuel is enough. -/
theorem Decides.loop {item : Rule τ α} {Stop : List τ → Prop} {step : β → α → β}
    {finish : β → γ} {hang : List τ → Prop} {body : β → Run σ ε (Iter β γ)} {fuel : Nat}
    (hbody : ∀ b, Decides view expected n (fun _ => True) F (round item Stop step finish b) hang
      (body b))
    (htakes : Takes 1 item) (hitem : ∀ toks a rest, item toks a rest → F toks)
    (hstop : ∀ toks, Stop toks → F toks) (hhang : ∀ toks, hang toks → F toks) (hfuel : n ≤ fuel)
    (b : β) :
    Decides view expected n (fun _ => True) (fun _ => True) (loopRule item Stop step finish b)
      (loopHangs item hang) (Run.loop body fuel b) := by
  induction fuel generalizing n b with
  | zero => exact fun s _ hn => absurd (Nat.lt_of_lt_of_le hn hfuel) (Nat.not_lt_zero _)
  | succ fuel ih =>
    -- A loop is a round and what comes after it, with less to read and less fuel.
    let k : Iter β γ → Nat
      | .again _ => n - 1
      | .done _ => n
    let R : Iter β γ → List τ → Prop
      | .again _ => fun _ => True
      | .done _ => Stop
    have hafter : ∀ i : Iter β γ, Decides view expected (k i) (fun s => R i (view s))
        (fun _ => True) (afterRound item Stop step finish i) (hangsAfter item hang i)
        (Run.loopAfter body fuel i) := by
      intro i
      cases i with
      | again b =>
        exact ih (fun b => (hbody b).mono (fun _ h => h) (Nat.sub_le n 1)) (by omega) b
      | done c =>
        intro s hs _
        exact .ok ⟨rfl, rfl, hs⟩ (fun b rest h _ => ⟨h.1, h.2.1⟩) not_false
    rw [Run.loop_succ]
    refine (Decides.bindOn (hbody b) hafter ?_ ?_ ?_).congr
      (fun s _ c rest h => round_afterRound.mp h)
      (fun s _ c rest h _ => ⟨round_afterRound.mpr h, trivial⟩) (fun s _ => round_hangsAfter)
    · rintro toks i rest (⟨a, ha, rfl⟩ | ⟨hend, rfl, rfl⟩) hn
      · have hshort := (htakes _ _ _ ha).2
        exact ⟨trivial, by show rest.length < n - 1; omega⟩
      · exact ⟨hend, hn⟩
    · intro i mid c rest hread _
      cases i with
      | again b =>
        obtain ⟨as, has, hend, _⟩ := hread
        exact many_follow hitem has (hstop _ hend)
      | done c => exact hstop _ hread.2.2
    · intro i mid h
      cases i with
      | again b =>
        obtain ⟨as, rest, has, hend⟩ := h
        exact many_follow hitem has (hhang _ hend)
      | done c => exact h.elim

end

end Ian.Lib
