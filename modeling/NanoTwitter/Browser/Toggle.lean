import Mathlib.Tactic
import NanoTwitter.Browser.Threads

/-!
# When links tell the truth

`dataset.replyVisible` of a link is set by clicks, the conversation comes and goes on its own: it is
added when its answer arrives, wherever the flag stands by then, and closing removes only what
stands after the link. A link tells the truth if one conversation is shown or under way while it is
open, and none while it is closed.

A conversation is under way as a call, then as an answer, and is shown with the form at its end;
calls and answers only pass it on. Clicks open the books: opening adds a conversation, and closing
must find it after the link. So in every run all links tell the truth throughout if and only if
nobody closes a link that still waits for its answer, or whose conversation was opened by a click
beside the icon (`truthful_iff_patient`).
-/

namespace NanoTwitter

/-- The call is for the replies of the `k`-th panel. -/
def Ajax.opens (call : Ajax) (k : ℕ) : Bool := call.panel = k && call.script = .replies

/-- The conversations that are under way to the `k`-th panel. -/
def Tab.underWay (t : Tab) (k : ℕ) : ℕ :=
  t.sent.countP (·.opens k) + t.answered.countP (·.1.opens k)

/-- The number of conversations, each of which ends in a form. -/
def forms (added : List Added) : ℕ := added.countP Added.isForm

/-- The panel has its link still. -/
def Panel.linked (p : Panel) : Bool :=
  match p.footer with
  | .links _ _ => true
  | .text _ => false

namespace Visit

/-- Every link is open if a conversation is shown or under way, and closed if none is. -/
def Truthful (v : Visit) : Prop :=
  ∀ (k : ℕ) (p : Panel), v.tab.panels[k]? = some p → p.linked = true →
    v.tab.underWay k + forms p.added + forms p.below = if p.replyVisible then 1 else 0

/-- No link is closed that waits for its answer, or whose conversation stands below the footer. -/
def Patient (v : Visit) : Move → Prop
  | .click k .replies _ => ∀ p : Panel, v.tab.panels[k]? = some p → p.linked = true →
      p.replyVisible = true → v.tab.underWay k = 0 ∧ p.below = []
  | _ => True

end Visit

/-! ### Counting -/

theorem countP_eraseIdx {α : Type} (f : α → Bool) {l : List α} {n : ℕ} {a : α}
    (h : l[n]? = some a) : (l.eraseIdx n).countP f + (if f a then 1 else 0) = l.countP f := by
  obtain ⟨hn, rfl⟩ := List.getElem?_eq_some_iff.1 h
  rw [← List.countP_cons]
  exact (List.getElem_cons_eraseIdx_perm hn).countP_eq f

@[simp] theorem forms_nil : forms [] = 0 := rfl

theorem forms_append (l l' : List Added) : forms (l ++ l') = forms l + forms l' :=
  List.countP_append

/-- A conversation has one form. -/
theorem forms_conversation (x : Text) (l : List Entry) : forms (conversation x l) = 1 := by
  have hreplies : forms (l.map Entry.added) = 0 := by
    unfold forms
    rw [List.countP_map, List.countP_eq_zero]
    exact fun _ _ => Bool.noConfusion
  unfold conversation
  rw [forms_append]
  split_ifs
  · rfl
  · rw [hreplies]
    rfl

/-- Without a form there is no conversation. -/
theorem Shows.eq_nil {w₀ w : World} {x : Text} {added : List Added} (h : Shows w₀ w x added)
    (hforms : forms added = 0) : added = [] := by
  obtain ⟨ls, -, rfl⟩ := h
  cases ls with
  | nil => rfl
  | cons l ls =>
    rw [List.flatMap_cons, forms_append, forms_conversation] at hforms
    omega

/-! ### Clicks -/

namespace Panel

variable {p : Panel}

theorem linked_iff : p.linked = true ↔ ∃ heart added, p.footer = .links heart added := by
  unfold linked
  cases p.footer with
  | links heart added => simp
  | text t => simp

/-- A click on a heart leaves the link as it is. -/
theorem click_likes (p : Panel) : (p.click .likes).linked = p.linked ∧
    (p.click .likes).added = p.added ∧ (p.click .likes).replyVisible = p.replyVisible := by
  obtain ⟨tweetId, visible, footer, below⟩ := p
  cases footer with
  | links heart added => cases heart <;> exact ⟨rfl, rfl, rfl⟩
  | text t => exact ⟨rfl, rfl, rfl⟩

/-- A click on a link closes it if it is open. -/
theorem click_open (h : p.linked = true) (hvisible : p.replyVisible = true) :
    (p.click .replies).linked = true ∧ (p.click .replies).added = [] ∧
      (p.click .replies).replyVisible = false ∧ p.asks .replies = false := by
  obtain ⟨heart, added, hfooter⟩ := linked_iff.1 h
  obtain ⟨tweetId, visible, footer, below⟩ := p
  obtain rfl : footer = .links heart added := hfooter
  obtain rfl : visible = true := hvisible
  exact ⟨rfl, rfl, rfl, rfl⟩

/-- A click on a link opens it if it is closed. -/
theorem click_closed (h : p.linked = true) (hvisible : p.replyVisible = false) :
    (p.click .replies).linked = true ∧ (p.click .replies).added = p.added ∧
      (p.click .replies).replyVisible = true ∧ p.asks .replies = true := by
  obtain ⟨heart, added, hfooter⟩ := linked_iff.1 h
  obtain ⟨tweetId, visible, footer, below⟩ := p
  obtain rfl : footer = .links heart added := hfooter
  obtain rfl : visible = false := hvisible
  exact ⟨rfl, rfl, rfl, rfl⟩

theorem linked_of_click {script : Script} (h : (p.click script).linked = true) :
    p.linked = true := by
  obtain ⟨tweetId, visible, footer, below⟩ := p
  cases footer with
  | links heart added => rfl
  | text t => cases script <;> exact h

end Panel

namespace Tab

variable {t : Tab}

theorem underWay_click (t : Tab) (k : ℕ) (script : Script) (target : Target) (j : ℕ) :
    (t.click k script target).underWay j =
      t.underWay j + (t.call k script target).toList.countP (·.opens j) := by
  unfold underWay click
  dsimp only
  rw [List.countP_append]
  omega

/-- A click on a link that is closed asks for a conversation. -/
theorem countP_call {k : ℕ} {p : Panel} (hp : t.panels[k]? = some p) (script : Script)
    (target : Target) (j : ℕ) :
    (t.call k script target).toList.countP (·.opens j) =
      if p.asks script && (Ajax.opens ⟨k, script, target, p.tweetId⟩ j) then 1 else 0 := by
  unfold call
  rw [hp]
  cases hasks : p.asks script with
  | false => simp [Option.filter, hasks]
  | true => simp [Option.filter, hasks, List.countP_cons]

/-- Other clicks do not. -/
theorem countP_call_eq_zero (t : Tab) (k : ℕ) {script : Script} (target : Target) {j : ℕ}
    (h : k ≠ j ∨ script = .likes) :
    (t.call k script target).toList.countP (·.opens j) = 0 := by
  cases hk : t.panels[k]? with
  | none => simp [call, hk]
  | some p =>
    rw [countP_call hk]
    rcases h with hkj | hscript
    · simp [Ajax.opens, hkj]
    · simp [Ajax.opens, hscript]

end Tab

namespace Visit

variable {P : Platform} {w₀ : World} {v : Visit}

/-- A click on a heart is no matter of the links. -/
theorem truthful_click_likes (h : v.Truthful) (k : ℕ) (target : Target) :
    (v.step P (.click k .likes target)).Truthful := by
  intro j q hq hlinked
  obtain ⟨p, hp, rfl⟩ := Tab.of_getElem?_modify hq
  show (v.tab.click k .likes target).underWay j + _ + _ = _
  rw [Tab.underWay_click, v.tab.countP_call_eq_zero k target (.inr rfl), Nat.add_zero]
  by_cases hkj : k = j
  · rw [if_pos hkj] at hlinked ⊢
    obtain ⟨hl, ha, hv⟩ := p.click_likes
    rw [ha, hv, Panel.below_click]
    exact h j p hp (hl ▸ hlinked)
  · rw [if_neg hkj] at hlinked ⊢
    exact h j p hp hlinked

/-- **A click on a link keeps the links truthful if and only if it is patient.** -/
theorem truthful_click_iff (hinv : v.Inv P w₀) (h : v.Truthful) (k : ℕ) (target : Target) :
    (v.step P (.click k .replies target)).Truthful ↔ v.Patient (.click k .replies target) := by
  constructor
  · intro h' p hp hlinked hvisible
    obtain ⟨hl, ha, hv, hasks⟩ := Panel.click_open hlinked hvisible
    have hq : (v.tab.panels.modify k fun p => p.click .replies)[k]? = some (p.click .replies) := by
      rw [List.getElem?_modify, hp]
      simp
    have hcount := h' k _ hq hl
    have hunder : (v.tab.click k .replies target).underWay k = v.tab.underWay k := by
      rw [Tab.underWay_click, Tab.countP_call hp, hasks]
      rfl
    change (v.tab.click k .replies target).underWay k + _ + _ = _ at hcount
    rw [hunder, ha, hv, Panel.below_click, forms_nil] at hcount
    have hzero : v.tab.underWay k = 0 ∧ forms p.below = 0 := by
      simp only [Bool.false_eq_true, if_false] at hcount
      omega
    exact ⟨hzero.1, (hinv.authentic k p hp).2.eq_nil hzero.2⟩
  · intro hpatient j q hq hlinked
    obtain ⟨p, hp, rfl⟩ := Tab.of_getElem?_modify hq
    show (v.tab.click k .replies target).underWay j + _ + _ = _
    by_cases hkj : k = j
    · subst hkj
      rw [if_pos rfl] at hlinked ⊢
      have hlinked' := Panel.linked_of_click hlinked
      have hcount := h k p hp hlinked'
      rw [Tab.underWay_click, Tab.countP_call hp, Panel.below_click]
      cases hvisible : p.replyVisible with
      | true =>
        -- closing: what was shown stood after the link
        obtain ⟨-, ha, hv, hasks⟩ := Panel.click_open hlinked' hvisible
        obtain ⟨hunder, hbelow⟩ := hpatient p hp hlinked' hvisible
        rw [ha, hv, hasks, hunder, hbelow]
        rfl
      | false =>
        -- opening: nothing was shown
        obtain ⟨-, ha, hv, hasks⟩ := Panel.click_closed hlinked' hvisible
        rw [hvisible] at hcount
        have hopens : Ajax.opens ⟨k, .replies, target, p.tweetId⟩ k = true := by simp [Ajax.opens]
        rw [ha, hv, hasks, hopens]
        simp only [Bool.false_eq_true, if_false, Bool.and_self, if_true] at hcount ⊢
        omega
    · rw [if_neg hkj] at hlinked ⊢
      rw [Tab.underWay_click, v.tab.countP_call_eq_zero k target (.inl hkj)]
      exact h j p hp hlinked

/-! ### Calls and answers -/

/-- A call that reaches the application becomes an answer. -/
theorem Inv.underWay_reach (h : v.Inv P w₀) (n : ℕ) (env : Env) (j : ℕ) :
    (v.reach P n env).tab.underWay j = v.tab.underWay j := by
  cases hcall : v.tab.sent[n]? with
  | none => rw [reach_of_none hcall]
  | some call =>
    obtain ⟨req, hreq⟩ := exists_request call
    have hnew : ((succeeded P env req (v.site.ctx v.tab.client)).map
        fun data => (call, data)).toList.countP (·.1.opens j) = if call.opens j then 1 else 0 := by
      cases hscript : call.script with
      | likes => cases succeeded P env req (v.site.ctx v.tab.client) <;> simp [Ajax.opens, hscript]
      | replies =>
        obtain rfl := Option.some.inj ((request_replies hscript).symm.trans hreq)
        obtain ⟨l, -, hsucceeded⟩ := succeeded_replies P env
          (c := v.site.ctx v.tab.client) h.orderly.tidy "/tweet/replies" call.tweetId
        rw [hsucceeded]
        simp [List.countP_cons]
    have hsent := countP_eraseIdx (·.opens j) hcall
    rw [reach_eq hcall hreq]
    unfold Tab.underWay
    dsimp only at hsent ⊢
    rw [List.countP_append, hnew]
    omega

/-- An answer that arrives at a panel with a link is shown there. -/
theorem Inv.forms_receive (h : v.Inv P w₀) {a : Ajax × Text} (ha : a ∈ v.tab.answered) {p : Panel}
    (hp : v.tab.panels[a.1.panel]? = some p) (hlinked : (p.receive a.1 a.2).linked = true) :
    p.linked = true ∧ (p.receive a.1 a.2).replyVisible = p.replyVisible ∧
      forms (p.receive a.1 a.2).added + forms (p.receive a.1 a.2).below =
        forms p.added + forms p.below + if a.1.script = .replies then 1 else 0 := by
  cases hfooter : p.footer with
  | text t =>
    rw [Panel.receive_text hfooter] at hlinked
    obtain ⟨heart, added, hlinks⟩ := Panel.linked_iff.1 hlinked
    exact absurd (hfooter.symm.trans hlinks) (by simp)
  | links heart added =>
    have hsame := Panel.added_of_links hfooter
    refine ⟨Panel.linked_iff.2 ⟨heart, added, hfooter⟩, ?_⟩
    cases hscript : a.1.script with
    | likes =>
      rw [Panel.receive_likes hscript a.2 hfooter] at hlinked ⊢
      by_cases htarget : a.1.target = .icon
      · rw [if_pos htarget, hsame]
        exact ⟨rfl, rfl⟩
      · rw [if_neg htarget] at hlinked
        exact absurd hlinked (by simp [Panel.linked])
    | replies =>
      obtain ⟨l, -, hnew⟩ := h.thread_answered ha hscript hp
      rw [Panel.receive_replies hscript hnew hfooter, if_pos rfl]
      split_ifs
      · refine ⟨rfl, ?_⟩
        show forms (added ++ _) + forms p.below = _
        rw [forms_append, forms_conversation, hsame]
        omega
      · refine ⟨rfl, ?_⟩
        show forms p.added + forms (p.below ++ _) = _
        rw [forms_append, forms_conversation]
        omega

theorem Inv.truthful_reach (hinv : v.Inv P w₀) (h : v.Truthful) (n : ℕ) (env : Env) :
    (v.step P (.reach n env)).Truthful := by
  intro j p hp hlinked
  have hpanels : (v.reach P n env).tab.panels = v.tab.panels := by
    cases hcall : v.tab.sent[n]? with
    | none => rw [reach_of_none hcall]
    | some call =>
      obtain ⟨req, hreq⟩ := exists_request call
      rw [reach_eq hcall hreq]
  change (v.reach P n env).tab.panels[j]? = some p at hp
  show (v.reach P n env).tab.underWay j + _ + _ = _
  rw [hinv.underWay_reach]
  rw [hpanels] at hp
  exact h j p hp hlinked

theorem Inv.truthful_receive (hinv : v.Inv P w₀) (h : v.Truthful) (n : ℕ) :
    (v.step P (.receive n)).Truthful := by
  show (⟨v.site, v.tab.receive n⟩ : Visit).Truthful
  unfold Tab.receive
  cases ha : v.tab.answered[n]? with
  | none => exact h
  | some a =>
    intro j q hq hlinked
    have hanswered := countP_eraseIdx (·.1.opens j) ha
    obtain ⟨p, hp, rfl⟩ := Tab.of_getElem?_modify hq
    by_cases hj : a.1.panel = j
    · rw [if_pos hj] at hlinked ⊢
      obtain ⟨hl, hv, hforms⟩ := hinv.forms_receive (List.mem_of_getElem? ha) (hj ▸ hp) hlinked
      have hcount := h j p hp hl
      have hopens : a.1.opens j = decide (a.1.script = .replies) := by simp [Ajax.opens, hj]
      rw [hv, ← hcount]
      simp only [hopens, decide_eq_true_eq] at hanswered
      unfold Tab.underWay
      dsimp only
      omega
    · rw [if_neg hj] at hlinked ⊢
      have hopens : a.1.opens j = false := by simp [Ajax.opens, hj]
      rw [← h j p hp hlinked]
      simp only [hopens, Bool.false_eq_true, if_false] at hanswered
      unfold Tab.underWay
      dsimp only
      omega

/-- **One step.** -/
theorem truthful_step_iff (hinv : v.Inv P w₀) (h : v.Truthful) (m : Move) :
    (v.step P m).Truthful ↔ v.Patient m := by
  cases m with
  | click k script target =>
    cases script with
    | replies => exact truthful_click_iff hinv h k target
    | likes => exact iff_of_true (truthful_click_likes h k target) trivial
  | reach n env => exact iff_of_true (hinv.truthful_reach h n env) trivial
  | receive n => exact iff_of_true (hinv.truthful_receive h n) trivial
  | traffic e => exact iff_of_true h trivial

theorem truthful_opened (P : Platform) (es : List Event) (client : ℕ) (html : Html) :
    (opened P es client html).Truthful := by
  intro k p hp _
  obtain ⟨footer, -, rfl⟩ := List.mem_map.1 (List.mem_of_getElem? hp)
  rfl

end Visit

/-- **Links tell the truth if and only if they are clicked patiently.** -/
theorem truthful_iff_patient (P : Platform) (es : List Event) (client : ℕ) (html : Html)
    (moves : List Move) :
    Run.Always (Visit.step P) Visit.Truthful (Visit.opened P es client html) moves ↔
      Run.EachStep (Visit.step P) Visit.Patient (Visit.opened P es client html) moves :=
  Run.always_iff_eachStep (I := fun v => v.Inv P (Site.reached P es).world) (G := Visit.Truthful)
    (fun _ m hinv _ _ => Visit.inv_step hinv m)
    (fun _ m hinv h => Visit.truthful_step_iff hinv h m) (Visit.inv_opened P es client html)
    (Visit.truthful_opened P es client html) moves

end NanoTwitter
