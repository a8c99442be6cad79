import Mathlib.Data.List.Infix
import Mathlib.Logic.Function.Basic
import Mathlib.Order.Defs.PartialOrder

namespace DigStore.Library.Journal

variable {κ σ ι : Type*}

/-- A record is opened once with a header, gets items and is closed at most once. -/
@[ext]
structure Record (σ ι : Type*) where
  header : σ
  items : List ι
  closed : Bool

structure Record.Le (r r' : Record σ ι) : Prop where
  header : r'.header = r.header
  items : r.items <+: r'.items
  closed : r.closed = true → r' = r

theorem Record.Le.trans {r r' r'' : Record σ ι} (h : r.Le r') (h' : r'.Le r'') : r.Le r'' where
  header := h'.header.trans h.header
  items := h.items.trans h'.items
  closed hc := by
    obtain rfl := h.closed hc
    exact h'.closed hc

theorem Record.Le.antisymm {r r' : Record σ ι} (h : r.Le r') (h' : r'.Le r) : r = r' := by
  cases hc : r.closed with
  | true => exact (h.closed hc).symm
  | false =>
      cases hc' : r'.closed with
      | true => exact h'.closed hc'
      | false =>
          ext1
          · exact h'.header
          · exact h.items.eq_of_length_le h'.items.length_le
          · exact hc.trans hc'.symm

instance : PartialOrder (Record σ ι) where
  le := Record.Le
  le_refl r := ⟨rfl, List.prefix_refl _, fun _ => rfl⟩
  le_trans _ _ _ := Record.Le.trans
  le_antisymm _ _ := Record.Le.antisymm

def Record.add (r : Record σ ι) (item : ι) : Record σ ι := { r with items := r.items ++ [item] }

def Record.close (r : Record σ ι) : Record σ ι := { r with closed := true }

theorem Record.le_add {r : Record σ ι} (h : r.closed = false) (item : ι) : r ≤ r.add item :=
  ⟨rfl, List.prefix_append _ _, fun hc => absurd (h.symm.trans hc) Bool.false_ne_true⟩

theorem Record.le_close {r : Record σ ι} (h : r.closed = false) : r ≤ r.close :=
  ⟨rfl, List.prefix_refl _, fun hc => absurd (h.symm.trans hc) Bool.false_ne_true⟩

inductive Event (κ σ ι : Type*)
  | opened (key : κ) (header : σ) (item : ι)
  | added (key : κ) (item : ι)
  | closed (key : κ)

def Event.key : Event κ σ ι → κ
  | .opened key _ _ => key
  | .added key _ => key
  | .closed key => key

abbrev Book (κ σ ι : Type*) := κ → Option (Record σ ι)

variable [DecidableEq κ]

/-- An event may enter a book: it opens a record that is not there, or goes to one
that is there and open. -/
inductive Enters : Book κ σ ι → Event κ σ ι → Book κ σ ι → Prop
  | opened {b key} (header item) (h : b key = none) :
      Enters b (.opened key header item) (Function.update b key (some ⟨header, [item], false⟩))
  | added {b key r} (item) (h : b key = some r) (ho : r.closed = false) :
      Enters b (.added key item) (Function.update b key (some (r.add item)))
  | closed {b key r} (h : b key = some r) (ho : r.closed = false) :
      Enters b (.closed key) (Function.update b key (some r.close))

inductive Run : Book κ σ ι → List (Event κ σ ι) → Book κ σ ι → Prop
  | nil (b) : Run b [] b
  | cons {b b₁ b₂ e es} (h : Enters b e b₁) (h' : Run b₁ es b₂) : Run b (e :: es) b₂

def Event.item? (key : κ) : Event κ σ ι → Option ι
  | .opened k _ item => if k = key then some item else none
  | .added k item => if k = key then some item else none
  | .closed _ => none

def itemsOf (key : κ) (es : List (Event κ σ ι)) : List ι := es.filterMap (Event.item? key)

def itemsAt (b : Book κ σ ι) (key : κ) : List ι := ((b key).map Record.items).getD []

variable {b b' : Book κ σ ι} {e : Event κ σ ι} {es es' : List (Event κ σ ι)} {key : κ} {r : Record σ ι}

theorem Run.append {b₁ : Book κ σ ι} (h : Run b es b₁) (h' : Run b₁ es' b') : Run b (es ++ es') b' := by
  induction h with
  | nil => exact h'
  | cons he _ ih => exact .cons he (ih h')

theorem Run.concat {b₁ : Book κ σ ι} (h : Run b es b₁) (he : Enters b₁ e b') : Run b (es ++ [e]) b' :=
  h.append (.cons he (.nil _))

theorem Run.split (h : Run b (es ++ es') b') : ∃ b₁, Run b es b₁ ∧ Run b₁ es' b' := by
  induction es generalizing b with
  | nil => exact ⟨b, .nil b, h⟩
  | cons e es ih =>
      cases h with
      | cons he h =>
          obtain ⟨b₁, h₁, h₂⟩ := ih h
          exact ⟨b₁, .cons he h₁, h₂⟩

theorem Enters.frame (h : Enters b e b') (hk : key ≠ e.key) : b' key = b key := by
  cases h <;> exact Function.update_of_ne hk _ _

theorem Enters.le (h : Enters b e b') (hr : b key = some r) : ∃ r', b' key = some r' ∧ r ≤ r' := by
  by_cases hk : key = e.key
  · subst hk
    cases h with
    | opened header item hn => cases hr.symm.trans hn
    | added item hr' ho =>
        cases hr.symm.trans hr'
        exact ⟨_, Function.update_self _ _ _, Record.le_add ho item⟩
    | closed hr' ho =>
        cases hr.symm.trans hr'
        exact ⟨_, Function.update_self _ _ _, Record.le_close ho⟩
  · exact ⟨r, (h.frame hk).trans hr, le_rfl⟩

/-- A record only ever moves up. -/
theorem Run.le (h : Run b es b') (hr : b key = some r) : ∃ r', b' key = some r' ∧ r ≤ r' := by
  induction h generalizing r with
  | nil => exact ⟨r, hr, le_rfl⟩
  | cons he _ ih =>
      obtain ⟨r₁, hr₁, hle₁⟩ := he.le hr
      obtain ⟨r₂, hr₂, hle₂⟩ := ih hr₁
      exact ⟨r₂, hr₂, hle₁.trans hle₂⟩

theorem Enters.items (h : Enters b e b') (key : κ) : itemsAt b' key = itemsAt b key ++ itemsOf key [e] := by
  by_cases hk : key = e.key
  · subst hk
    cases h with
    | opened header item hn => simp [itemsAt, itemsOf, Event.item?, Event.key, hn]
    | added item hr ho => simp [itemsAt, itemsOf, Event.item?, Event.key, hr, Record.add]
    | closed hr ho => simp [itemsAt, itemsOf, Event.item?, Event.key, hr, Record.close]
  · have hitem : e.item? key = none := by
      cases e with
      | opened k header item | added k item => exact if_neg (Ne.symm hk)
      | closed k => rfl
    simp [itemsAt, itemsOf, h.frame hk, hitem]

/-- The items of a record are those that the journal has for it, in its order. -/
theorem Run.items (h : Run b es b') (key : κ) : itemsAt b' key = itemsAt b key ++ itemsOf key es := by
  induction h with
  | nil => simp [itemsOf]
  | cons he _ ih =>
      rw [ih, he.items key, List.append_assoc]
      exact congrArg _ List.filterMap_append.symm

theorem Enters.closes (h : Enters b e b') (hr : b' key = some r) :
    r.closed = true ↔ (∃ r₀, b key = some r₀ ∧ r₀.closed = true) ∨ e = .closed key := by
  by_cases hk : key = e.key
  · subst hk
    cases h with
    | opened header item hn =>
        rw [Event.key, Function.update_self] at hr
        cases hr
        simp [Event.key, hn]
    | added item hr' ho =>
        rw [Event.key, Function.update_self] at hr
        cases hr
        simp [Event.key, hr', ho, Record.add]
    | closed hr' ho =>
        rw [Event.key, Function.update_self] at hr
        cases hr
        simp [Event.key, Record.close]
  · rw [h.frame hk] at hr
    have hne : e ≠ .closed key := by
      rintro rfl
      exact hk rfl
    simp [hr, hne]

theorem Run.closes (h : Run b es b') (hr : b' key = some r) :
    r.closed = true ↔ (∃ r₀, b key = some r₀ ∧ r₀.closed = true) ∨ .closed key ∈ es := by
  induction h with
  | nil => simp [hr]
  | @cons b b₁ b₂ e es he h ih =>
      rw [ih hr, List.mem_cons, ← or_assoc]
      apply or_congr_left
      constructor
      · rintro ⟨r₁, hr₁, hc⟩
        exact ((he.closes hr₁).mp hc).imp_right Eq.symm
      · rintro (⟨r₀, hr₀, hc⟩ | rfl)
        · obtain ⟨r₁, hr₁, hle⟩ := he.le hr₀
          obtain rfl := hle.closed hc
          exact ⟨_, hr₁, hc⟩
        · cases he with
          | closed hr' ho => exact ⟨_, Function.update_self _ _ _, rfl⟩

theorem Run.after_close (h : Run b es b') (hr : b key = some r) (hc : r.closed = true) : ∀ e ∈ es, e.key ≠ key := by
  induction h with
  | nil => simp
  | @cons b b₁ b₂ e es he _ ih =>
      have hk : e.key ≠ key := by
        rintro rfl
        cases he with
        | opened header item hn => cases hr.symm.trans hn
        | added item hr' ho | closed hr' ho =>
            cases hr.symm.trans hr'
            cases hc.symm.trans ho
      intro e' he'
      rcases List.mem_cons.mp he' with rfl | he'
      · exact hk
      · exact ih ((he.frame (Ne.symm hk)).trans hr) e' he'

theorem Run.opened_once (h : Run b es b') (hr : b key = some r) : ∀ header item, .opened key header item ∉ es := by
  intro header item hmem
  obtain ⟨es₁, es₂, rfl⟩ := List.append_of_mem hmem
  obtain ⟨b₁, h₁, h₂⟩ := h.split
  obtain ⟨r₁, hr₁, -⟩ := h₁.le hr
  cases h₂ with
  | cons he _ =>
      cases he with
      | opened header item hn => cases hr₁.symm.trans hn

theorem Run.present (h : Run b es b') (he : e ∈ es) : ∃ r, b' e.key = some r := by
  obtain ⟨es₁, es₂, rfl⟩ := List.append_of_mem he
  obtain ⟨b₁, -, h₂⟩ := h.split
  cases h₂ with
  | cons he h₂ =>
      cases he with
      | opened | added | closed =>
          obtain ⟨r, hr, -⟩ := h₂.le (Function.update_self _ _ _)
          exact ⟨r, hr⟩

/-- Nothing of a record is told before it is opened, and it is opened once. -/
theorem Run.around_opening {before after : List (Event κ σ ι)} {header : σ} {item : ι}
    (h : Run b (before ++ .opened key header item :: after) b') :
    (∀ e ∈ before, e.key ≠ key) ∧ ∀ header' item', .opened key header' item' ∉ after := by
  obtain ⟨b₁, h₁, h₂⟩ := h.split
  cases h₂ with
  | cons he h₂ =>
      cases he with
      | opened header item hn =>
          refine ⟨?_, h₂.opened_once (Function.update_self _ _ _)⟩
          intro e hmem hkey
          obtain ⟨r, hr⟩ := h₁.present hmem
          rw [hkey, hn] at hr
          cases hr

theorem Run.after_closing {before after : List (Event κ σ ι)} (h : Run b (before ++ .closed key :: after) b') :
    ∀ e ∈ after, e.key ≠ key := by
  obtain ⟨b₁, -, h₂⟩ := h.split
  cases h₂ with
  | cons he h₂ =>
      cases he with
      | closed => exact h₂.after_close (Function.update_self _ _ _) rfl

/-- A record that a journal began is there because it was opened with that header. -/
theorem Run.opened (h : Run b es b') (hn : b key = none) (hr : b' key = some r) :
    ∃ item, .opened key r.header item ∈ es := by
  induction h with
  | nil => cases hn.symm.trans hr
  | @cons b b₁ b₂ e es he h ih =>
      by_cases hk : key = e.key
      · subst hk
        cases he with
        | opened header item =>
            obtain ⟨r', hr', hle⟩ := h.le (Function.update_self _ _ _)
            cases hr.symm.trans hr'
            exact ⟨item, by rw [hle.header]; exact List.mem_cons_self⟩
        | added item hr' | closed hr' => cases hn.symm.trans hr'
      · obtain ⟨item, hmem⟩ := ih ((he.frame hk).trans hn) hr
        exact ⟨item, List.mem_cons_of_mem _ hmem⟩

end DigStore.Library.Journal
