import AiTrader.Library.Transition
import Mathlib.Logic.Function.Basic

/-! # Lookups through a cache with a time to live

A caller looks a key up.  If no entry of the key lives it asks outside, and stores what it is told
with the time from which the entry ages.  The clock is read at a look and at a store and may show
anything.

* `step`, `served`: what a caller does, and what it is served by that.
* `served_backed`: what is served for a key was told for that key: to the caller itself since it
  looked the key up, or to whoever stored it last, at a time from which it still lives.
* `Path.project`: a system that holds such a cache runs it. -/

namespace AiTrader.Transition

/-- What a run shows through a view in which a step is a labelled step or none. -/
theorem Path.project {σ α ν ω : Type*} {step : σ → α → Option σ} {vstep : ν → ω → Option ν}
    (view : σ → ν) (label : σ → α → Option ω)
    (hstep : ∀ s a s', step s a = some s' →
      (∀ w, label s a = some w → vstep (view s) w = some (view s')) ∧
        (label s a = none → view s' = view s))
    {s t : σ} {tr : List (σ × α)} (h : Path step s tr t) :
    Path vstep (view s)
      (tr.filterMap fun x => (label x.1 x.2).map fun w => (view x.1, w)) (view t) := by
  induction h with
  | nil => exact .nil
  | @snoc tr t u a hp hs ih =>
      obtain ⟨hsome, hnone⟩ := hstep _ _ _ hs
      rw [List.filterMap_append]
      cases hl : label t a with
      | none => simpa [hl, hnone hl] using ih
      | some w => simpa [hl] using ih.snoc (hsome w hl)

theorem Since.imp {β : Type*} {p q p' q' : β → Prop} {l : List β} (h : Since p q l)
    (hp : ∀ x, p x → p' x) (hq : ∀ x, q x → q' x) : Since p' q' l := by
  obtain ⟨l₁, x, l₂, rfl, hx, hl⟩ := h
  exact ⟨l₁, x, l₂, rfl, hp x hx, fun y hy => hq y (hl y hy)⟩

theorem Since.mem {β : Type*} {p q : β → Prop} {l : List β} (h : Since p q l) : ∃ x ∈ l, p x := by
  obtain ⟨l₁, x, l₂, rfl, hx, -⟩ := h
  exact ⟨x, List.mem_append_right _ List.mem_cons_self, hx⟩

/-- What is so since some entry of a selection is so since some entry of the whole. -/
theorem Since.of_filterMap {β γ : Type*} {f : β → Option γ} {p q : γ → Prop} {l : List β}
    (h : Since p q (l.filterMap f)) :
    Since (fun x => ∃ y, f x = some y ∧ p y) (fun x => ∀ y, f x = some y → q y) l := by
  induction l using List.reverseRecOn with
  | nil => exact absurd h not_since_nil
  | append_singleton l x ih =>
      rw [since_concat]
      rw [List.filterMap_append] at h
      cases hx : f x with
      | none =>
          refine .inr ⟨ih (by simpa [hx] using h), by simp⟩
      | some y =>
          have h' : Since p q (l.filterMap f ++ [y]) := by simpa [hx] using h
          obtain hy | ⟨hl, hy⟩ := since_concat.mp h'
          · exact .inl ⟨y, rfl, hy⟩
          · exact .inr ⟨ih hl, fun z hz => Option.some_inj.mp hz ▸ hy⟩

end AiTrader.Transition

namespace AiTrader

open Transition

/-- What a caller is about. -/
inductive TtlCache.Phase (κ β : Type*) where
  | idle
  | asking (k : κ)
  | told (k : κ) (b : β)

/-- The key that a caller is about. -/
def TtlCache.Phase.key? {κ β : Type*} : TtlCache.Phase κ β → Option κ
  | .idle => none
  | .asking k | .told k _ => some k

/-- The entries with what they live by, and the callers. -/
structure TtlCache (ι κ β ε : Type*) where
  entries : κ → Option (β × ε) := fun _ => none
  phase : ι → TtlCache.Phase κ β := fun _ => .idle

namespace TtlCache

inductive Event (ι κ β τ : Type*) where
  | look (i : ι) (k : κ) (now : τ)
  /-- What is answered outside, if anything. -/
  | answer (i : ι) (b : Option β)
  | store (i : ι) (now : τ)
  | clear

variable {ι κ β ε τ : Type*} [DecidableEq ι] [DecidableEq κ]

section
variable (expiry : τ → ε) (live : ε → τ → Bool)

def step (c : TtlCache ι κ β ε) : Event ι κ β τ → Option (TtlCache ι κ β ε)
  | .look i k now =>
      match c.phase i with
      | .idle =>
          if ((c.entries k).any fun e => live e.2 now) = true then some c
          else some
            { entries := Function.update c.entries k none
              phase := Function.update c.phase i (.asking k) }
      | _ => none
  | .answer i b =>
      match c.phase i with
      | .asking k => some
          { c with phase := Function.update c.phase i ((b.map (Phase.told k)).getD .idle) }
      | _ => none
  | .store i now =>
      match c.phase i with
      | .told k b => some
          { entries := Function.update c.entries k (some (b, expiry now))
            phase := Function.update c.phase i .idle }
      | _ => none
  | .clear => some { c with entries := fun _ => none }

/-- The key that is looked up and the value that is served. -/
def served (c : TtlCache ι κ β ε) : Event ι κ β τ → Option (κ × β)
  | .look _ k now => ((c.entries k).filter fun e => live e.2 now).map fun e => (k, e.1)
  | .store i _ =>
      match c.phase i with
      | .told k b => some (k, b)
      | _ => none
  | _ => none

end

/-- The value is told for the key to a caller that asked for it. -/
def Tells (i : ι) (k : κ) (b : β) (x : TtlCache ι κ β ε × Event ι κ β τ) : Prop :=
  x.2 = .answer i (some b) ∧ x.1.phase i = .asking k

/-- The value was told for the key to a caller that has looked nothing up since. -/
def ToldTo (i : ι) (k : κ) (b : β) (tr : List (TtlCache ι κ β ε × Event ι κ β τ)) : Prop :=
  Since (Tells i k b) (fun x => ∀ l now, x.2 ≠ .look i l now) tr

/-- The value is stored for the key at a time. -/
def Stores (k : κ) (b : β) (now : τ) (x : TtlCache ι κ β ε × Event ι κ β τ) : Prop :=
  ∃ i, x.2 = .store i now ∧ x.1.phase i = .told k b

/-- The entry of the key is not replaced. -/
def Spares (k : κ) (x : TtlCache ι κ β ε × Event ι κ β τ) : Prop :=
  x.2 ≠ .clear ∧ ∀ b now, ¬ Stores k b now x

variable {expiry : τ → ε} {live : ε → τ → Bool} {c c' : TtlCache ι κ β ε} {ev : Event ι κ β τ}
  {tr : List (TtlCache ι κ β ε × Event ι κ β τ)}

omit [DecidableEq ι] [DecidableEq κ] in
theorem served_look {i : ι} {k l : κ} {b : β} {now : τ}
    (h : served live c (.look i k now) = some (l, b)) : l = k := by
  obtain ⟨e, -, heq⟩ := Option.map_eq_some_iff.mp h
  cases heq
  rfl

omit [DecidableEq ι] [DecidableEq κ] in
theorem served_store {i : ι} {k : κ} {b : β} {now : τ}
    (h : served live c (.store i now) = some (k, b)) : c.phase i = .told k b := by
  simp only [served] at h
  split at h
  · rename_i l d hk
    cases h
    exact hk
  · cases h

theorem key_step {i : ι} {k : κ} (h : step expiry live c ev = some c')
    (hk : (c'.phase i).key? = some k) :
    (∃ now, ev = .look i k now) ∨ ((c.phase i).key? = some k ∧ ∀ l now, ev ≠ .look i l now) := by
  cases ev with
  | look j l now =>
      simp only [step] at h
      split at h
      · rename_i hidle
        by_cases hij : i = j
        · subst hij
          split at h <;> cases h
          · rw [hidle] at hk
            cases hk
          · simp only [Function.update_self, Phase.key?, Option.some.injEq] at hk
            exact .inl ⟨now, hk ▸ rfl⟩
        · refine .inr ⟨?_, fun l' now' heq => hij (by cases heq; rfl)⟩
          split at h <;> cases h
          · exact hk
          · simpa [Function.update_of_ne hij] using hk
      · cases h
  | answer j b =>
      simp only [step] at h
      split at h
      · rename_i l hl
        cases h
        refine .inr ⟨?_, by simp⟩
        by_cases hij : i = j
        · subst hij
          cases b with
          | none => simp [Phase.key?] at hk
          | some b => simpa [hl, Phase.key?] using hk
        · simpa [Function.update_of_ne hij] using hk
      · cases h
  | store j now =>
      simp only [step] at h
      split at h
      · cases h
        refine .inr ⟨?_, by simp⟩
        by_cases hij : i = j
        · subst hij
          simp [Phase.key?] at hk
        · simpa [Function.update_of_ne hij] using hk
      · cases h
  | clear =>
      cases h
      exact .inr ⟨hk, by simp⟩

/-- What is held was told, and what is in the cache was stored last. -/
structure Backed (expiry : τ → ε) (c : TtlCache ι κ β ε)
    (tr : List (TtlCache ι κ β ε × Event ι κ β τ)) : Prop where
  held : ∀ i k b, c.phase i = .told k b → ToldTo i k b tr
  entry : ∀ k b e, c.entries k = some (b, e) → ∃ t, e = expiry t ∧
    Since (Stores k b t) (Spares k) tr ∧ ∃ j, ∃ x ∈ tr, Tells j k b x

omit [DecidableEq ι] [DecidableEq κ] in
theorem Backed.init : Backed expiry ({} : TtlCache ι κ β ε) ([] : List (_ × Event ι κ β τ)) where
  held i k b h := by cases h
  entry k b e h := by cases h

omit [DecidableEq ι] [DecidableEq κ] in
theorem Backed.stay (hb : Backed expiry c tr) (hspares : ∀ k, Spares k (c, ev))
    (hheld : ∀ i k b, c'.phase i = .told k b →
      (c.phase i = .told k b ∧ ∀ l now, ev ≠ .look i l now) ∨ Tells i k b (c, ev))
    (hentry : ∀ k e, c'.entries k = some e → c.entries k = some e) :
    Backed expiry c' (tr ++ [(c, ev)]) where
  held i k b h := by
    obtain ⟨h, hlook⟩ | h := hheld i k b h
    · exact since_concat.mpr (.inr ⟨hb.held i k b h, hlook⟩)
    · exact since_concat.mpr (.inl h)
  entry k b e h := by
    obtain ⟨t, he, hsince, j, x, hx, ht⟩ := hb.entry k b e (hentry k _ h)
    exact ⟨t, he, since_concat.mpr (.inr ⟨hsince, hspares k⟩), j, x, List.mem_append_left _ hx, ht⟩

theorem Backed.step (hb : Backed expiry c tr) (h : step expiry live c ev = some c') :
    Backed expiry c' (tr ++ [(c, ev)]) := by
  cases ev with
  | look i k now =>
      refine hb.stay (fun j => by simp [Spares, Stores]) ?_ ?_ <;> simp only [TtlCache.step] at h <;>
        split at h
      · rename_i hidle
        intro j l b hj
        by_cases hji : j = i
        · subst hji
          split at h <;> cases h
          · rw [hidle] at hj
            cases hj
          · simp at hj
        · refine .inl ⟨?_, fun l' now' heq => hji (by cases heq; rfl)⟩
          split at h <;> cases h
          · exact hj
          · simpa [Function.update_of_ne hji] using hj
      · cases h
      · split at h <;> cases h
        · exact fun l e hl => hl
        · intro l e hl
          by_cases hlk : l = k
          · subst hlk
            simp at hl
          · simpa [Function.update_of_ne hlk] using hl
      · cases h
  | answer i b =>
      simp only [TtlCache.step] at h
      split at h
      · rename_i k hk
        cases h
        refine hb.stay (fun j => by simp [Spares, Stores]) (fun j l d hj => ?_) fun l e hl => hl
        by_cases hji : j = i
        · subst hji
          cases b with
          | none => simp at hj
          | some b =>
              simp only [Function.update_self, Option.map_some, Option.getD_some,
                Phase.told.injEq] at hj
              obtain ⟨rfl, rfl⟩ := hj
              exact .inr ⟨rfl, hk⟩
        · exact .inl ⟨by simpa [Function.update_of_ne hji] using hj, by simp⟩
      · cases h
  | store i now =>
      simp only [TtlCache.step] at h
      split at h
      · rename_i k b hk
        cases h
        obtain ⟨x, hx, ht⟩ := (hb.held i k b hk).mem
        refine ⟨fun j l d hj => ?_, fun l d e hl => ?_⟩
        · by_cases hji : j = i
          · subst hji
            simp at hj
          · have hold : c.phase j = .told l d := by simpa [Function.update_of_ne hji] using hj
            exact since_concat.mpr (.inr ⟨hb.held j l d hold, by simp⟩)
        · by_cases hlk : l = k
          · subst hlk
            simp only [Function.update_self, Option.some.injEq, Prod.mk.injEq] at hl
            obtain ⟨rfl, rfl⟩ := hl
            exact ⟨now, rfl, since_concat.mpr (.inl ⟨i, rfl, hk⟩), i, x,
              List.mem_append_left _ hx, ht⟩
          · obtain ⟨t, he, hsince, j, y, hy, hd⟩ :=
              hb.entry l d e (by simpa [Function.update_of_ne hlk] using hl)
            refine ⟨t, he, since_concat.mpr (.inr ⟨hsince, by simp, ?_⟩), j, y,
              List.mem_append_left _ hy, hd⟩
            rintro d' t' ⟨i', hev, hphase⟩
            cases hev
            exact hlk (by cases hk.symm.trans hphase; rfl)
      · cases h
  | clear =>
      cases h
      refine ⟨fun j l b hj => ?_, fun l b e hl => by cases hl⟩
      exact since_concat.mpr (.inr ⟨hb.held j l b hj, by simp⟩)

theorem Backed.path (h : Path (TtlCache.step expiry live) {} tr c) : Backed expiry c tr := by
  induction h with
  | nil => exact .init
  | snoc _ hs ih => exact ih.step hs

/-- **What is served was told.**  A caller is served the value it has been told itself, or the one
that has been stored last for the key, which lives on. -/
theorem served_backed {k : κ} {b : β} (h : Path (step expiry live) {} tr c)
    (hs : served live c ev = some (k, b)) :
    (∃ i now, ev = .store i now ∧ ToldTo i k b tr) ∨
      ∃ i now t, ev = .look i k now ∧ live (expiry t) now = true ∧
        Since (Stores k b t) (Spares k) tr ∧ ∃ j, ∃ x ∈ tr, Tells j k b x := by
  have hb := Backed.path h
  cases ev with
  | look i l now =>
      obtain ⟨⟨d, e⟩, he, hkb⟩ := Option.map_eq_some_iff.mp hs
      obtain ⟨hmem, hlive⟩ := Option.filter_eq_some_iff.mp he
      cases hkb
      obtain ⟨t, rfl, hsince, htold⟩ := hb.entry k d e hmem
      exact .inr ⟨i, now, t, rfl, hlive, hsince, htold⟩
  | answer i d => cases hs
  | store i now =>
      exact .inl ⟨i, now, rfl, hb.held i k b (served_store hs)⟩
  | clear => cases hs

/-- The same in a system that holds such a cache: `label` is what an event does to it. -/
theorem served_view {σ α : Type*} {sstep : σ → α → Option σ} (view : σ → TtlCache ι κ β ε)
    (label : α → Option (Event ι κ β τ))
    (hstep : ∀ s a s', sstep s a = some s' →
      (∀ w, label a = some w → step expiry live (view s) w = some (view s')) ∧
        (label a = none → view s' = view s))
    {s t : σ} {tr : List (σ × α)} (h : Path sstep s tr t) (hs : view s = {}) {k : κ} {b : β}
    {w : Event ι κ β τ} (hw : served live (view t) w = some (k, b)) :
    (∃ i now, w = .store i now ∧
        Since (fun x => label x.2 = some (.answer i (some b)) ∧ (view x.1).phase i = .asking k)
          (fun x => ∀ l now, label x.2 ≠ some (.look i l now)) tr) ∨
      ∃ i now t, w = .look i k now ∧ live (expiry t) now = true ∧
        Since (fun x => ∃ j, label x.2 = some (.store j t) ∧ (view x.1).phase j = .told k b)
          (fun x => label x.2 ≠ some .clear ∧ ∀ j d now, label x.2 = some (.store j now) →
            (view x.1).phase j ≠ .told k d) tr ∧
        ∃ j, ∃ x ∈ tr, label x.2 = some (.answer j (some b)) ∧ (view x.1).phase j = .asking k := by
  have hpath := h.project view (fun _ a => label a) hstep
  rw [hs] at hpath
  have htold : ∀ (i : ι) (x : σ × α),
      (∃ y, ((label x.2).map fun w => (view x.1, w)) = some y ∧ Tells i k b y) →
      label x.2 = some (.answer i (some b)) ∧ (view x.1).phase i = .asking k := by
    rintro i x ⟨y, heq, htells, hasking⟩
    obtain ⟨w', hw', rfl⟩ := Option.map_eq_some_iff.mp heq
    exact ⟨hw'.trans (congrArg some htells), hasking⟩
  obtain ⟨i, now, rfl, hsince⟩ | ⟨i, now, t, rfl, hlive, hsince, j, y, hy, htells⟩ :=
    served_backed hpath hw
  · refine .inl ⟨i, now, rfl, hsince.of_filterMap.imp (htold i) fun x hlook l now' hlabel => ?_⟩
    exact hlook (view x.1, .look i l now') (by rw [hlabel]; rfl) l now' rfl
  · obtain ⟨x, hx, heq⟩ := List.mem_filterMap.mp hy
    refine .inr ⟨i, now, t, rfl, hlive, ?_, j, x, hx, htold j x ⟨y, heq, htells⟩⟩
    refine hsince.of_filterMap.imp ?_ ?_
    · rintro x ⟨_, hx, l, hstore, htold⟩
      obtain ⟨w', hw', rfl⟩ := Option.map_eq_some_iff.mp hx
      exact ⟨l, hw'.trans (congrArg some hstore), htold⟩
    · intro x hspares
      refine ⟨fun hclear => ?_, fun l d now' hstore hphase => ?_⟩
      · exact (hspares (view x.1, .clear) (by rw [hclear]; rfl)).1 rfl
      · exact (hspares (view x.1, .store l now') (by rw [hstore]; rfl)).2 d now' ⟨l, rfl, hphase⟩

end TtlCache

end AiTrader
