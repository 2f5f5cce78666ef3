import Mathlib.Data.List.Nodup
import Mathlib.Logic.Function.Basic
import Mathlib.Tactic.Common

/-!
# Observers

A subject has a source value and observers, objects that keep something worked
out from the source. The address of an observer is put on a list when it is
made and taken off when it is destroyed; a new source value is published by
bringing every observer on the list up to date with `refresh`.

`Coherent` says that the list is the addresses of the observers there are, and
that none of these is out of date: `refresh` would change nothing. Every
operation keeps it, a copy of an observer included, which is made without
looking at the source.
-/

namespace Ian.Lib

structure Subject (σ α : Type) where
  source : σ
  objects : Nat → Option α
  listeners : List Nat

namespace Subject

variable {σ α : Type}

/-- Make an observer at a free address. -/
def attach (s : Subject σ α) (address : Nat) (x : α) : Subject σ α :=
  { s with
    objects := Function.update s.objects address (some x)
    listeners := s.listeners.insert address }

/-- Destroy the observer at an address. -/
def detach (s : Subject σ α) (address : Nat) : Subject σ α :=
  { s with
    objects := Function.update s.objects address none
    listeners := s.listeners.erase address }

variable (refresh : σ → α → α)

/-- Bring the observer at an address up to date. -/
def update (s : Subject σ α) (address : Nat) : Subject σ α :=
  { s with
    objects := Function.update s.objects address ((s.objects address).map (refresh s.source)) }

/-- Bring every observer on the list up to date, one after the other. -/
def notify (s : Subject σ α) : Subject σ α := s.listeners.foldl (update refresh) s

def publish (s : Subject σ α) (source : σ) : Subject σ α := notify refresh { s with source }

structure Coherent (s : Subject σ α) : Prop where
  nodup : s.listeners.Nodup
  registered : ∀ address, address ∈ s.listeners ↔ (s.objects address).isSome = true
  fresh : ∀ address x, s.objects address = some x → refresh s.source x = x

/-! ## Telling every observer -/

theorem foldl_update_source (as : List Nat) (s : Subject σ α) :
    (as.foldl (update refresh) s).source = s.source ∧
      (as.foldl (update refresh) s).listeners = s.listeners := by
  induction as generalizing s with
  | nil => exact ⟨rfl, rfl⟩
  | cons a as ih => exact ih (update refresh s a)

variable {refresh}

theorem foldl_update_objects (hidem : ∀ source x, refresh source (refresh source x) =
    refresh source x) (as : List Nat) (s : Subject σ α) (address : Nat) :
    (as.foldl (update refresh) s).objects address =
      if address ∈ as then (s.objects address).map (refresh s.source) else s.objects address := by
  induction as generalizing s with
  | nil => rfl
  | cons a as ih =>
    rw [List.foldl_cons, ih]
    by_cases heq : address = a
    · subst heq
      -- told again later on, it stays as it is
      have htwice : ((s.objects address).map (refresh s.source)).map (refresh s.source) =
          (s.objects address).map (refresh s.source) := by
        rw [Option.map_map]
        congr 1
        funext x
        exact hidem s.source x
      simp [update, htwice]
    · simp [update, heq]

@[simp] theorem publish_source (s : Subject σ α) (source : σ) :
    (publish refresh s source).source = source :=
  (foldl_update_source refresh _ _).1

@[simp] theorem publish_listeners (s : Subject σ α) (source : σ) :
    (publish refresh s source).listeners = s.listeners :=
  (foldl_update_source refresh _ _).2

theorem publish_objects (hidem : ∀ source x, refresh source (refresh source x) =
    refresh source x) (s : Subject σ α) (source : σ) (address : Nat) :
    (publish refresh s source).objects address =
      if address ∈ s.listeners then (s.objects address).map (refresh source)
      else s.objects address :=
  foldl_update_objects hidem s.listeners { s with source } address

/-! ## Coherence -/

namespace Coherent

variable {s : Subject σ α}

theorem attach (h : Coherent refresh s) (address : Nat) {x : α} (hx : refresh s.source x = x) :
    Coherent refresh (s.attach address x) where
  nodup := List.Nodup.insert h.nodup
  registered a := by
    by_cases heq : a = address
    · simp [Subject.attach, heq]
    · simp [Subject.attach, heq, h.registered a]
  fresh a y := by
    by_cases heq : a = address
    · intro hy
      obtain rfl : x = y := by simpa [Subject.attach, heq] using hy
      exact hx
    · simpa [Subject.attach, heq] using h.fresh a y

theorem detach (h : Coherent refresh s) (address : Nat) : Coherent refresh (s.detach address) where
  nodup := h.nodup.erase address
  registered a := by
    by_cases heq : a = address
    · simp [Subject.detach, heq, h.nodup.not_mem_erase]
    · simp [Subject.detach, heq, h.registered a]
  fresh a y := by
    by_cases heq : a = address
    · simp [Subject.detach, heq]
    · simpa [Subject.detach, heq] using h.fresh a y

theorem publish (hidem : ∀ source x, refresh source (refresh source x) = refresh source x)
    (h : Coherent refresh s) (source : σ) : Coherent refresh (publish refresh s source) where
  nodup := by
    rw [publish_listeners]
    exact h.nodup
  registered a := by
    rw [publish_listeners, publish_objects hidem]
    split
    · rw [Option.isSome_map, h.registered a]
    · exact h.registered a
  fresh a y hy := by
    rw [publish_source]
    rw [publish_objects hidem] at hy
    by_cases hmem : a ∈ s.listeners
    · rw [if_pos hmem] at hy
      obtain ⟨x, -, rfl⟩ := Option.map_eq_some_iff.mp hy
      exact hidem source x
    · rw [if_neg hmem] at hy
      exact absurd ((h.registered a).mpr (by rw [hy]; rfl)) hmem

end Coherent

theorem coherent_of_empty {s : Subject σ α} (hobjects : ∀ address, s.objects address = none)
    (hlisteners : s.listeners = []) : Coherent refresh s where
  nodup := by
    rw [hlisteners]
    exact List.nodup_nil
  registered address := by simp [hobjects, hlisteners]
  fresh address x hx := by
    rw [hobjects] at hx
    cases hx

end Subject

end Ian.Lib
