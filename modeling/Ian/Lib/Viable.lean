import Ian.Lib.Grammar
import Mathlib.Computability.Language
import Mathlib.Order.CompletePartialOrder

/-!
# Parsers that stop at the first bad token

A parser reads tokens from the front of a list and throws at a token it has no
use for. Two things make that token the first bad one: what it has taken by
then can be completed to a word of the language (`Words`, the languages it is
made of), and what it does depends on the tokens it has taken and on the next
one only, so no list that goes on with this token is accepted. `PredictsAt` says
both, and its rules follow the shape of the parser: `PredictsAt.bind` for a
sequence, `PredictsAt.look` for a choice made by looking at the next token,
`Predicts.loop` for a loop.

`Covers` is about the grammar: a rule reads every word of its language, whatever
comes after it.
-/

namespace Ian.Lib

open Run Rule

/-! ## Languages -/

/-- A language that has a word, over the letters that satisfy `Q`. -/
structure Words (ι : Type) (Q : ι → Prop) where
  language : Language ι
  inhabited : ∃ w, w ∈ language
  within : ∀ w ∈ language, ∀ i ∈ w, Q i

namespace Words

variable {ι : Type} {Q : ι → Prop}

/-- The word of one letter. -/
def one (i : ι) (h : Q i) : Words ι Q where
  language := {[i]}
  inhabited := ⟨[i], rfl⟩
  within := by
    rintro _ rfl j hj
    exact List.mem_singleton.mp hj ▸ h

/-- The empty word. -/
def nothing : Words ι Q where
  language := 1
  inhabited := ⟨[], rfl⟩
  within := by
    rintro _ rfl _ hi
    cases hi

/-- Words of `L` followed by words of `M`. -/
def append (L M : Words ι Q) : Words ι Q where
  language := L.language * M.language
  inhabited := by
    obtain ⟨w, hw⟩ := L.inhabited
    obtain ⟨v, hv⟩ := M.inhabited
    exact ⟨w ++ v, Language.append_mem_mul hw hv⟩
  within := by
    intro _ hwv i hi
    obtain ⟨w, hw, v, hv, rfl⟩ := Language.mem_mul.mp hwv
    rcases List.mem_append.mp hi with hi | hi
    · exact L.within w hw i hi
    · exact M.within v hv i hi

/-- Words of the languages, one after the other. -/
def seq (Ls : List (Words ι Q)) : Words ι Q := Ls.foldr append nothing

/-- Words of one of the languages. -/
def either (L M : Words ι Q) : Words ι Q where
  language := L.language + M.language
  inhabited := L.inhabited.imp fun _ => Or.inl
  within w hw := hw.elim (L.within w) (M.within w)

/-- A word of the language, or nothing. -/
def option (L : Words ι Q) : Words ι Q := either L nothing

/-- Any number of words of the language. -/
def star (L : Words ι Q) : Words ι Q where
  language := KStar.kstar L.language
  inhabited := ⟨[], Language.nil_mem_kstar _⟩
  within := by
    intro _ hstar i hi
    obtain ⟨ws, rfl, hws⟩ := Language.mem_kstar.mp hstar
    obtain ⟨w, hw, hi⟩ := List.mem_flatten.mp hi
    exact L.within w (hws w hw) i hi

variable {L M : Words ι Q} {w v : List ι}

theorem mem_append (hw : w ∈ L.language) (hv : v ∈ M.language) :
    w ++ v ∈ (append L M).language := Language.append_mem_mul hw hv

theorem nil_seq : [] ∈ (seq ([] : List (Words ι Q))).language := rfl

theorem nil_option : [] ∈ (option L).language := Or.inr rfl

theorem le_option : L.language ≤ (option L).language := fun _ => Or.inl

theorem nil_star : [] ∈ (star L).language := Language.nil_mem_kstar _

theorem append_star (hw : w ∈ L.language) (hv : v ∈ (star L).language) :
    w ++ v ∈ (star L).language := by
  obtain ⟨ws, rfl, hws⟩ := Language.mem_kstar.mp hv
  exact Language.mem_kstar.mpr ⟨w :: ws, rfl, List.forall_mem_cons.mpr ⟨hw, hws⟩⟩

theorem seq_single (L : Words ι Q) : (seq [L]).language = L.language := mul_one L.language

theorem seq_snoc (Ls : List (Words ι Q)) (M : Words ι Q) :
    (seq (Ls ++ [M])).language = (seq Ls).language * M.language := by
  induction Ls with
  | nil => exact (mul_one _).trans (one_mul _).symm
  | cons L Ls ih => exact (congrArg (L.language * ·) ih).trans (mul_assoc _ _ _).symm

/-- A round of a repetition and more rounds. -/
theorem seq_star (Ls : List (Words ι Q)) :
    (seq (Ls ++ [star (seq Ls)])).language ≤ (star (seq Ls)).language := by
  intro _ hwv
  obtain ⟨w, hw, v, hv, rfl⟩ := Language.mem_mul.mp ((seq_snoc _ _).le hwv)
  exact append_star hw hv

theorem append_seq_star (L : Words ι Q) :
    (seq [L, star L]).language ≤ (star L).language := by
  intro _ hwv
  obtain ⟨w, hw, v, hv, rfl⟩ := Language.mem_mul.mp hwv
  exact append_star hw ((seq_single _).le hv)

end Words

/-! ## Parsers -/

section

variable {σ ε κ ι α β γ : Type} {Q : ι → Prop}

/-- Two runs end alike: both with a value, or both with an exception, the
exceptions being related by `E`. -/
inductive Alike (E : ε → σ → ε → σ → Prop) : Outcome ε α × σ → Outcome ε α × σ → Prop
  | ok {a b : α} {s t : σ} : Alike E (.ok a, s) (.ok b, t)
  | throw {e e' : ε} {s t : σ} : E e s e' t → Alike E (.throw e, s) (.throw e', t)

/-- What has been taken by the end of a run: a word of the language, or, if the
run ends with an exception, the start of one. -/
inductive Completes (L : Language ι) (w : List ι) : Outcome ε α → Prop
  | ok {a : α} : w ∈ L → Completes L w (.ok a)
  | throw {e : ε} {z : List ι} : w ++ z ∈ L → Completes L w (.throw e)

/-- From the state `s` the parser `m` follows `L`: what it takes off the front of
the tokens `view s` is a word of `L` or can be completed to one, and on every
list that starts with these tokens, and goes on with the same one, `m'` does
like it. `kind` is what the language knows of a token. -/
def PredictsAt (view : σ → List κ) (kind : κ → ι) (E : ε → σ → ε → σ → Prop) (s : σ)
    (L : Words ι Q) (m m' : Run σ ε α) : Prop :=
  ∀ o s₁, m.run s = (o, s₁) → o ≠ .outOfFuel →
    ∃ w, view s = w ++ view s₁ ∧ Completes L.language (w.map kind) o ∧
      ∀ t left, view t = w ++ left → left.head? = (view s₁).head? →
        ∃ o' t₁, m'.run t = (o', t₁) ∧ view t₁ = left ∧ Alike E (o, s₁) (o', t₁)

/-- The parser follows `L` from every state. -/
def Predicts (view : σ → List κ) (kind : κ → ι) (E : ε → σ → ε → σ → Prop) (L : Words ι Q)
    (m m' : Run σ ε α) : Prop :=
  ∀ s, PredictsAt view kind E s L m m'

variable {view : σ → List κ} {kind : κ → ι} {E : ε → σ → ε → σ → Prop} {s : σ} {L M : Words ι Q}
  {Ls : List (Words ι Q)}

theorem Completes.mono {L M : Language ι} (h : L ≤ M) {w : List ι} {o : Outcome ε α}
    (ho : Completes L w o) : Completes M w o := by
  cases ho with
  | ok hw => exact .ok (h hw)
  | throw hw => exact .throw (h hw)

theorem PredictsAt.mono {m m' : Run σ ε α} (h : PredictsAt view kind E s L m m')
    (hL : L.language ≤ M.language) : PredictsAt view kind E s M m m' := by
  intro o s₁ hrun ho
  obtain ⟨w, hview, hw, hlike⟩ := h o s₁ hrun ho
  exact ⟨w, hview, hw.mono hL, hlike⟩

/-- A value is returned without a look at the tokens. -/
theorem PredictsAt.pure (hL : [] ∈ L.language) (a a' : α) :
    PredictsAt view kind E s L (pure a : Run σ ε α) (pure a') := by
  intro o s₁ hrun _
  cases hrun
  exact ⟨[], rfl, .ok hL, fun t left hview _ => ⟨_, t, rfl, hview, .ok⟩⟩

theorem head_append {w left left' : List κ} (h : left.head? = left'.head?) :
    (w ++ left).head? = (w ++ left').head? := by
  cases w with
  | nil => exact h
  | cons k w => rfl

/-- A sequence follows the sequence of the languages. -/
theorem PredictsAt.bind {m m' : Run σ ε α} {f f' : α → Run σ ε β}
    (hm : PredictsAt view kind E s L m m')
    (hf : ∀ a a', Predicts view kind E (Words.seq Ls) (f a) (f' a')) :
    PredictsAt view kind E s (Words.seq (L :: Ls)) (m >>= f) (m' >>= f') := by
  intro o s₁ hrun ho
  obtain ⟨o₁, mid, hfirst⟩ : ∃ o₁ mid, m.run s = (o₁, mid) := ⟨_, _, rfl⟩
  have hpart := hm o₁ mid hfirst
  cases o₁ with
  | outOfFuel =>
    rw [bind_outOfFuel hfirst] at hrun
    cases hrun
    exact absurd rfl ho
  | throw e =>
    rw [bind_throw hfirst] at hrun
    cases hrun
    obtain ⟨w, hview, hw, hlike⟩ := hpart nofun
    refine ⟨w, hview, ?_, fun t left ht hhead => ?_⟩
    · cases hw with
      | @throw _ z hz =>
        -- The rest of the sequence completes the word.
        obtain ⟨v, hv⟩ := (Words.seq Ls).inhabited
        refine .throw (z := z ++ v) ?_
        rw [← List.append_assoc]
        exact Words.mem_append hz hv
    · obtain ⟨o', t₁, hrun', ht₁, halike⟩ := hlike t left ht hhead
      cases halike with
      | throw he => exact ⟨_, t₁, bind_throw hrun', ht₁, .throw he⟩
  | ok a =>
    rw [bind_ok hfirst] at hrun
    obtain ⟨w, hview, hw, hlike⟩ := hpart nofun
    obtain ⟨v, hview', hv, _⟩ := hf a a mid o s₁ hrun ho
    refine ⟨w ++ v, ?_, ?_, fun t left ht hhead => ?_⟩
    · rw [hview, hview', List.append_assoc]
    · rw [List.map_append]
      cases hw with
      | ok hw =>
        cases hv with
        | ok hv => exact .ok (Words.mem_append hw hv)
        | @throw _ z hv =>
          refine .throw (z := z) ?_
          rw [List.append_assoc]
          exact Words.mem_append hw hv
    · rw [List.append_assoc] at ht
      obtain ⟨o', mid', hrun', hmid', halike⟩ := hlike t (v ++ left) ht (by
        rw [hview']
        exact head_append hhead)
      cases halike with
      | @ok _ a' =>
        obtain ⟨v', hview'', _, hlike'⟩ := hf a a' mid o s₁ hrun ho
        obtain rfl : v = v' := List.append_cancel_right (hview'.symm.trans hview'')
        obtain ⟨o'', t₁, hrun'', ht₁, halike'⟩ := hlike' mid' left hmid' hhead
        exact ⟨o'', t₁, (bind_ok hrun').trans hrun'', ht₁, halike'⟩

/-- The last part of a sequence. -/
theorem PredictsAt.last {m m' : Run σ ε α} (h : PredictsAt view kind E s L m m') :
    PredictsAt view kind E s (Words.seq [L]) m m' :=
  h.mono (Words.seq_single L).ge

/-- A value read off the state changes nothing. -/
theorem PredictsAt.gets {f f' : β → Run σ ε α} {g : σ → β}
    (h : ∀ b b', PredictsAt view kind E s L (f b) (f' b')) :
    PredictsAt view kind E s L (Run.gets g >>= f) (Run.gets g >>= f') := by
  intro o s₁ hrun ho
  rw [bind_ok (run_gets g s)] at hrun
  obtain ⟨w, hview, hw, _⟩ := h (g s) (g s) o s₁ hrun ho
  refine ⟨w, hview, hw, fun t left ht hhead => ?_⟩
  obtain ⟨w', hview', _, hlike⟩ := h (g s) (g t) o s₁ hrun ho
  obtain rfl : w = w' := List.append_cancel_right (hview.symm.trans hview')
  obtain ⟨o', t₁, hrun', ht₁, halike⟩ := hlike t left ht hhead
  exact ⟨o', t₁, (bind_ok (run_gets g t)).trans hrun', ht₁, halike⟩

/-- A look at the next token takes nothing, and what comes after it may depend on
what is seen. -/
theorem PredictsAt.look {look : Run σ ε γ} {see : Option κ → γ} {after : σ → σ}
    (hlook : ∀ s, look.run s = (.ok (see (view s).head?), after s))
    (hafter : ∀ s, view (after s) = view s) {f f' : γ → Run σ ε α}
    (h : PredictsAt view kind E (after s) L (f (see (view s).head?)) (f' (see (view s).head?))) :
    PredictsAt view kind E s L (look >>= f) (look >>= f') := by
  intro o s₁ hrun ho
  rw [bind_ok (hlook s)] at hrun
  obtain ⟨w, hview, hw, hlike⟩ := h o s₁ hrun ho
  rw [hafter] at hview
  refine ⟨w, hview, hw, fun t left ht hhead => ?_⟩
  have hsame : (view t).head? = (view s).head? := by
    rw [ht, hview]
    exact head_append hhead
  obtain ⟨o', t₁, hrun', ht₁, halike⟩ := hlike (after t) left ((hafter t).trans ht) hhead
  refine ⟨o', t₁, ?_, ht₁, halike⟩
  rw [bind_ok (hlook t), hsame, hrun']

/-- The loop rule: a round and what comes after it follow the repetition, if
going round again does and leaving the loop returns without a look. -/
theorem Predicts.loop {body body' : β → Run σ ε (Iter β α)}
    (h : ∀ next next' : Iter β α → Run σ ε α,
      (∀ b b', Predicts view kind E (Words.star L) (next (.again b)) (next' (.again b'))) →
      (∀ a a', Predicts view kind E (Words.star L) (next (.done a)) (next' (.done a'))) →
      ∀ b b', Predicts view kind E (Words.star L) (body b >>= next) (body' b' >>= next'))
    (fuel : Nat) (b b' : β) :
    Predicts view kind E (Words.star L) (Run.loop body fuel b) (Run.loop body' fuel b') := by
  induction fuel generalizing b b' with
  | zero =>
    intro s o s₁ hrun ho
    cases hrun
    exact absurd rfl ho
  | succ fuel ih =>
    rw [loop_succ, loop_succ]
    exact h _ _ (fun b b' => ih b b') (fun a a' s => PredictsAt.pure Words.nil_star a a') b b'

end

/-! ## Rules -/

section

variable {τ ι α β : Type} {Q : ι → Prop}

/-- The rule reads the word `w`, spelled by tokens that satisfy `good`, whatever
comes after it. -/
def ReadsWord (good : τ → Prop) (kind : τ → ι) (w : List ι) (g : Rule τ α) : Prop :=
  ∀ toks rest, (∀ tok ∈ toks, good tok) → toks.map kind = w → ∃ a, g (toks ++ rest) a rest

/-- The rule reads every word of `L`. -/
def Covers (good : τ → Prop) (kind : τ → ι) (L : Words ι Q) (g : Rule τ α) : Prop :=
  ∀ w ∈ L.language, ReadsWord good kind w g

variable {good : τ → Prop} {kind : τ → ι} {w v : List ι} {L M : Words ι Q} {Ls : List (Words ι Q)}

theorem ReadsWord.pure (a : α) : ReadsWord good kind ([] : List ι) (pure a) := by
  intro toks rest _ hw
  obtain rfl : toks = [] := List.map_eq_nil_iff.mp hw
  exact ⟨a, rfl, rfl⟩

theorem ReadsWord.bind {g : Rule τ α} {f : α → Rule τ β} (hg : ReadsWord good kind w g)
    (hf : ∀ a, ReadsWord good kind v (f a)) : ReadsWord good kind (w ++ v) (g >>= f) := by
  intro toks rest hgood hwv
  obtain ⟨first, more, rfl, hw, hv⟩ := List.map_eq_append_iff.mp hwv
  obtain ⟨a, ha⟩ := hg first (more ++ rest) (fun tok h => hgood tok (List.mem_append_left _ h)) hw
  obtain ⟨b, hb⟩ := hf a more rest (fun tok h => hgood tok (List.mem_append_right _ h)) hv
  refine ⟨b, a, more ++ rest, ?_, hb⟩
  rw [List.append_assoc]
  exact ha

/-- One item after the other. -/
theorem ReadsWord.many {g : Rule τ α} {ws : List (List ι)} (h : ∀ w ∈ ws, ReadsWord good kind w g) :
    ReadsWord good kind ws.flatten (Rule.many g) := by
  induction ws with
  | nil =>
    intro toks rest _ hw
    obtain rfl : toks = [] := List.map_eq_nil_iff.mp hw
    exact ⟨[], Many.nil rest⟩
  | cons w ws ih =>
    obtain ⟨hw, hws⟩ := List.forall_mem_cons.mp h
    intro toks rest hgood hall
    obtain ⟨first, more, rfl, hfirst, hmore⟩ := List.map_eq_append_iff.mp hall
    obtain ⟨a, ha⟩ := hw first (more ++ rest)
      (fun tok h => hgood tok (List.mem_append_left _ h)) hfirst
    obtain ⟨as, has⟩ := ih hws more rest
      (fun tok h => hgood tok (List.mem_append_right _ h)) hmore
    refine ⟨a :: as, Many.cons ?_ has⟩
    rw [List.append_assoc]
    exact ha

theorem Covers.pure (a : α) : Covers good kind (Words.seq ([] : List (Words ι Q))) (pure a) := by
  rintro _ rfl
  exact ReadsWord.pure a

theorem Covers.bind {g : Rule τ α} {f : α → Rule τ β} (hg : Covers good kind L g)
    (hf : ∀ a, Covers good kind (Words.seq Ls) (f a)) :
    Covers good kind (Words.seq (L :: Ls)) (g >>= f) := by
  intro _ hwv
  obtain ⟨w, hw, v, hv, rfl⟩ := Language.mem_mul.mp hwv
  exact (hg w hw).bind fun a => hf a v hv

/-- The first part of a sequence reads nothing. -/
theorem Covers.skip {g : Rule τ α} {f : α → Rule τ β} (hg : ∀ toks, ∃ a, g toks a toks)
    (hf : ∀ a, Covers good kind L (f a)) : Covers good kind L (g >>= f) := by
  intro w hw toks rest hgood heq
  obtain ⟨a, ha⟩ := hg (toks ++ rest)
  obtain ⟨b, hb⟩ := hf a w hw toks rest hgood heq
  exact ⟨b, a, _, ha, hb⟩

theorem Covers.mono {g : Rule τ α} (h : Covers good kind M g) (hL : L.language ≤ M.language) :
    Covers good kind L g := fun w hw => h w (hL hw)

/-- The last part of a sequence. -/
theorem Covers.last {g : Rule τ α} (h : Covers good kind L g) :
    Covers good kind (Words.seq [L]) g := h.mono (Words.seq_single L).le

theorem Covers.either {g g' : Rule τ α} (h : Covers good kind L g) (h' : Covers good kind M g') :
    Covers good kind (Words.either L M) (either g g') := by
  rintro w (hw | hw) toks rest hgood heq
  · exact (h w hw toks rest hgood heq).imp fun _ => Or.inl
  · exact (h' w hw toks rest hgood heq).imp fun _ => Or.inr

theorem Covers.option {g : Rule τ α} (h : Covers good kind L g) (a : α) :
    Covers good kind (Words.option L) (Rule.either g (Pure.pure a)) := h.either (Covers.pure a)

theorem Covers.map {g : Rule τ α} (f : α → β) (h : Covers good kind L g) :
    Covers good kind L (f <$> g) := by
  intro w hw toks rest hgood heq
  obtain ⟨a, ha⟩ := h w hw toks rest hgood heq
  exact ⟨f a, a, rest, ha, rfl, rfl⟩

theorem Covers.many {g : Rule τ α} (h : Covers good kind L g) :
    Covers good kind (Words.star L) (Rule.many g) := by
  intro _ hstar
  obtain ⟨ws, rfl, hws⟩ := Language.mem_kstar.mp hstar
  exact ReadsWord.many fun w hw => h w (hws w hw)

end

end Ian.Lib
