import DocPipeline.Stages.LlmClient
import DocPipeline.Text.JsonScan

/-!
# The reply's object is recovered unless its text reads as a fence

The patterns know no strings: an object whose text holds what ends a fence, or a whole
fence when none is around it, is cut there. The cut lies in a string, so what is cut out is
scanned from inside a string by a reader of the object and from outside by `loads`, and a
text that both get through has no backtick.
-/
namespace DocPipeline.Audit

set_option autoImplicit false

open Lib Json LlmClient

def AllSpace (t : Text) : Prop := ∀ c, c ∈ t → isSpace c = true

/-- Text around an object, without braces and backticks. -/
structure Prose where
  text : Text
  plain : ∀ c, c ∈ text → c ≠ '{' ∧ c ≠ '}' ∧ c ≠ '`'

structure Space where
  text : Text
  space : AllSpace text

/-- How a reply presents an object. -/
inductive ModelReply where
  | bare (before after : Prose)
  | fenced (before : Prose) (lead trail : Space) (after : Prose)

namespace ModelReply

def text (s : Text) : ModelReply → Text
  | bare before after => before.text ++ (s ++ after.text)
  | fenced before lead trail after =>
    before.text ++ (fenceMark ++ (jsonTag ++ (lead.text ++ (s ++ (trail.text ++ (fenceMark ++ after.text))))))

/-- A fence with braces in it. -/
def HidesFence (s : Text) : Prop :=
  ∃ a tag lead body trail b, (tag = [] ∨ tag = jsonTag) ∧ AllSpace lead ∧ AllSpace trail ∧
    s = a ++ (fenceMark ++ (tag ++ (lead ++ ('{' :: (body ++ ('}' :: (trail ++ (fenceMark ++ b))))))))

/-- A brace and the end of a fence. -/
def ClosesEarly (s : Text) : Prop :=
  ∃ a trail b, AllSpace trail ∧ s = a ++ ('}' :: (trail ++ (fenceMark ++ b)))

def Misread (s : Text) : ModelReply → Prop
  | bare _ _ => HidesFence s
  | fenced _ _ _ _ => ClosesEarly s

end ModelReply

/-! ## The two patterns -/

theorem mem_fence {t u f : Text} :
    (f, u) ∈ fence t ↔ ∃ tag lead body trail, (tag = [] ∨ tag = jsonTag) ∧ AllSpace lead ∧ AllSpace trail ∧
      f = '{' :: (body ++ ['}']) ∧
      t = fenceMark ++ (tag ++ (lead ++ ('{' :: (body ++ ('}' :: (trail ++ (fenceMark ++ u))))))) := by
  simp only [fence, Matcher.mem_bind, Matcher.mem_lit, Matcher.mem_opt, Matcher.mem_many, Matcher.mem_few,
    Matcher.mem_pure]
  constructor
  · rintro ⟨_, v1, ⟨rfl, rfl⟩, tag, v2, htag, lead, v3, ⟨rfl, hlead⟩, _, v4, ⟨rfl, rfl⟩, body, v5, ⟨rfl, -⟩, _, v6,
      ⟨rfl, rfl⟩, trail, v7, ⟨rfl, htrail⟩, _, v8, ⟨rfl, rfl⟩, rfl, rfl⟩
    rcases htag with ⟨rfl, rfl⟩ | ⟨rfl, rfl⟩
    · exact ⟨jsonTag, lead, body, trail, Or.inr rfl, hlead, htrail, rfl, rfl⟩
    · exact ⟨[], lead, body, trail, Or.inl rfl, hlead, htrail, rfl, rfl⟩
  · rintro ⟨tag, lead, body, trail, htag, hlead, htrail, rfl, rfl⟩
    refine ⟨_, _, ⟨rfl, rfl⟩, tag, _, ?_, lead, _, ⟨rfl, hlead⟩, _, _, ⟨rfl, rfl⟩, body, _, ⟨rfl, fun _ _ => rfl⟩, _, _,
      ⟨rfl, rfl⟩, trail, _, ⟨rfl, htrail⟩, _, _, ⟨rfl, rfl⟩, rfl, rfl⟩
    rcases htag with rfl | rfl
    · exact Or.inr ⟨rfl, rfl⟩
    · exact Or.inl ⟨rfl, rfl⟩

theorem fence_eq_nil {c : Char} {t : Text} (h : c ≠ '`') : fence (c :: t) = [] := by
  refine List.eq_nil_iff_forall_not_mem.mpr fun r hr => ?_
  obtain ⟨tag, lead, body, trail, -, -, -, -, he⟩ := mem_fence.mp hr
  exact h (List.cons.inj he).1

theorem mem_braces {t u f : Text} :
    (f, u) ∈ braces t ↔ ∃ body, f = '{' :: (body ++ ['}']) ∧ t = '{' :: (body ++ ('}' :: u)) := by
  simp only [braces, Matcher.mem_bind, Matcher.mem_lit, Matcher.mem_many, Matcher.mem_pure]
  constructor
  · rintro ⟨_, v1, ⟨rfl, rfl⟩, body, v2, ⟨rfl, -⟩, _, v3, ⟨rfl, rfl⟩, rfl, rfl⟩
    exact ⟨body, rfl, rfl⟩
  · rintro ⟨body, rfl, rfl⟩
    exact ⟨_, _, ⟨rfl, rfl⟩, body, _, ⟨rfl, fun _ _ => rfl⟩, _, _, ⟨rfl, rfl⟩, rfl, rfl⟩

/-- From the first brace to the last one. -/
theorem search_braces {a core b : Text} (ha : '{' ∉ a) (hb : '}' ∉ b) :
    Matcher.search braces (a ++ ('{' :: (core ++ ('}' :: b)))) = some ('{' :: (core ++ ['}'])) := by
  have hskip : ∀ a₁ c a₂, a = a₁ ++ c :: a₂ → braces (c :: a₂ ++ ('{' :: (core ++ ('}' :: b)))) = [] := by
    rintro a₁ c a₂ rfl
    refine List.eq_nil_iff_forall_not_mem.mpr fun r hr => ?_
    obtain ⟨body, -, he⟩ := mem_braces.mp hr
    refine ha (List.mem_append_right _ ?_)
    rw [(List.cons.inj he).1]
    exact List.mem_cons_self
  have hway : ('{' :: (core ++ ['}']), b) ∈ braces ('{' :: (core ++ ('}' :: b))) := mem_braces.mpr ⟨core, rfl, rfl⟩
  have hne : braces ('{' :: (core ++ ('}' :: b))) ≠ [] := List.ne_nil_of_mem hway
  rw [Matcher.search_skip hskip, Matcher.search_here hne]
  obtain ⟨⟨f, u⟩, hhead⟩ := Option.ne_none_iff_exists'.mp fun he => hne (List.head?_eq_none_iff.mp he)
  rw [hhead, Option.map_some]
  have hbind := hhead
  rw [braces, show '{' :: (core ++ ('}' :: b)) = ['{'] ++ (core ++ ('}' :: b)) from rfl, Matcher.lit_bind] at hbind
  obtain ⟨⟨body, v⟩, hr, hx, hfirst⟩ := Matcher.head?_bind_ordered (Matcher.many_ordered anyChar _) hbind
  simp only [Matcher.mem_many, Matcher.mem_bind, Matcher.mem_lit, Matcher.mem_pure] at hr hx
  obtain ⟨_, _, ⟨-, rfl⟩, rfl, rfl⟩ := hx
  have hlong : core.length ≤ body.length := by
    have hother := hfirst (core, '}' :: b) (Matcher.mem_many.mpr ⟨rfl, fun _ _ => rfl⟩) (List.ne_nil_of_mem
      (Matcher.mem_bind.mpr ⟨['}'], b, Matcher.mem_lit.mpr ⟨rfl, rfl⟩, Matcher.mem_pure.mpr ⟨rfl, rfl⟩⟩))
    rcases hother with he | hlt
    · rw [(Prod.mk.inj he).1]
    · exact Nat.le_of_lt hlt
  rcases List.append_eq_append_iff.mp hr.1 with ⟨more, rfl, he⟩ | ⟨more, rfl, he⟩
  · cases more with
    | nil => rw [List.append_nil]
    | cons c more =>
      refine absurd (List.mem_append_right more ?_) ((List.cons.inj he).2 ▸ hb)
      exact List.mem_cons_self
  · rw [List.length_append] at hlong
    rw [List.length_eq_zero_iff.mp (show more.length = 0 by omega), List.append_nil]

/-- What follows the brace that opens the group. -/
def fenceBody : Matcher Char Text := do
  let body ← Matcher.few anyChar
  let _ ← Matcher.lit ['}']
  let _ ← Matcher.many isSpace
  let _ ← Matcher.lit fenceMark
  return '{' :: (body ++ ['}'])

/-- A beginning after which the fence closes. -/
def Closes (body t : Text) : Prop := ∃ trail u, AllSpace trail ∧ t = body ++ ('}' :: (trail ++ (fenceMark ++ u)))

theorem mem_fenceBody {t u f : Text} :
    (f, u) ∈ fenceBody t ↔ ∃ body trail, AllSpace trail ∧ f = '{' :: (body ++ ['}']) ∧
      t = body ++ ('}' :: (trail ++ (fenceMark ++ u))) := by
  simp only [fenceBody, Matcher.mem_bind, Matcher.mem_lit, Matcher.mem_many, Matcher.mem_few, Matcher.mem_pure]
  constructor
  · rintro ⟨body, v1, ⟨rfl, -⟩, _, v2, ⟨rfl, rfl⟩, trail, v3, ⟨rfl, htrail⟩, _, v4, ⟨rfl, rfl⟩, rfl, rfl⟩
    exact ⟨body, trail, htrail, rfl, rfl⟩
  · rintro ⟨body, trail, htrail, rfl, rfl⟩
    exact ⟨body, _, ⟨rfl, fun _ _ => rfl⟩, _, _, ⟨rfl, rfl⟩, trail, _, ⟨rfl, htrail⟩, _, _, ⟨rfl, rfl⟩, rfl, rfl⟩

/-- The group is the shortest beginning after which the fence closes. -/
theorem fenceBody_shortest {t u f : Text} (h : (fenceBody t).head? = some (f, u)) :
    ∃ body, f = '{' :: (body ++ ['}']) ∧ Closes body t ∧ ∀ other, Closes other t → body.length ≤ other.length := by
  obtain ⟨⟨body, v⟩, hr, hx, hfirst⟩ := Matcher.head?_bind_ordered (Matcher.few_ordered anyChar t) h
  simp only [Matcher.mem_few, Matcher.mem_bind, Matcher.mem_lit, Matcher.mem_many, Matcher.mem_pure] at hr hx
  obtain ⟨_, _, ⟨-, rfl⟩, trail, _, ⟨rfl, htrail⟩, _, _, ⟨-, rfl⟩, rfl, rfl⟩ := hx
  refine ⟨body, rfl, ⟨trail, u, htrail, hr.1⟩, ?_⟩
  rintro other ⟨trail', u', htrail', he⟩
  have hother := hfirst (other, '}' :: (trail' ++ (fenceMark ++ u'))) (Matcher.mem_few.mpr ⟨he, fun _ _ => rfl⟩)
    (List.ne_nil_of_mem (Matcher.mem_bind.mpr ⟨_, _, Matcher.mem_lit.mpr ⟨rfl, rfl⟩,
      Matcher.mem_bind.mpr ⟨trail', _, Matcher.mem_many.mpr ⟨rfl, htrail'⟩,
        Matcher.mem_bind.mpr ⟨_, _, Matcher.mem_lit.mpr ⟨rfl, rfl⟩, Matcher.mem_pure.mpr ⟨rfl, rfl⟩⟩⟩⟩))
  rcases hother with he | hlt
  · exact Nat.le_of_eq (congrArg List.length (Prod.mk.inj he).1).symm
  · exact Nat.le_of_lt hlt

/-- A fence that is there is the one found: its tag, the blanks after it, then the group. -/
theorem search_fence {a lead t : Text} {r : Text × Text} {rs : List (Text × Text)} (ha : '`' ∉ a) (hlead : AllSpace lead)
    (hbody : fenceBody t = r :: rs) :
    Matcher.search fence (a ++ (fenceMark ++ (jsonTag ++ (lead ++ ('{' :: t))))) = some r.1 := by
  have hskip : ∀ a₁ c a₂, a = a₁ ++ c :: a₂ →
      fence (c :: a₂ ++ (fenceMark ++ (jsonTag ++ (lead ++ ('{' :: t))))) = [] := by
    rintro a₁ c a₂ rfl
    refine fence_eq_nil fun he => ha (List.mem_append_right _ ?_)
    rw [he]
    exact List.mem_cons_self
  have hgroup : (Matcher.lit ['{'] >>= fun _ => fenceBody) ('{' :: t) = r :: rs := by
    rw [show '{' :: t = ['{'] ++ t from rfl, Matcher.lit_bind, hbody]
  have hspaces : Matcher.many isSpace (lead ++ ('{' :: t)) =
      (lead, '{' :: t) :: (Matcher.many isSpace (lead ++ ('{' :: t))).tail := by
    obtain ⟨ways, hways⟩ := Matcher.many_eq_cons isSpace (lead ++ ('{' :: t))
    have hstop : isSpace '{' = false := rfl
    rw [hways, List.takeWhile_append_of_pos hlead, List.dropWhile_append_of_pos hlead, List.takeWhile_cons,
      List.dropWhile_cons, hstop]
    simp
  have hlead' : ((Matcher.many isSpace >>= fun _ => Matcher.lit ['{'] >>= fun _ => fenceBody) (lead ++ ('{' :: t))).head? =
      some r := by
    rw [Matcher.head?_bind_of_cons hspaces (by rw [hgroup]; exact List.cons_ne_nil _ _), hgroup]
    rfl
  have hhead : (fence (fenceMark ++ (jsonTag ++ (lead ++ ('{' :: t))))).head? = some r := by
    change ((Matcher.lit fenceMark >>= fun _ => Matcher.opt (Matcher.lit jsonTag) >>= fun _ => Matcher.many isSpace >>=
      fun _ => Matcher.lit ['{'] >>= fun _ => fenceBody) _).head? = _
    rw [Matcher.lit_bind, Matcher.head?_bind_of_cons (Matcher.opt_eq_cons jsonTag), hlead']
    exact fun hnil => by rw [hnil] at hlead'; cases hlead'
  have hne : fence (fenceMark ++ (jsonTag ++ (lead ++ ('{' :: t)))) ≠ [] :=
    fun hnil => by rw [hnil] at hhead; cases hhead
  rw [Matcher.search_skip hskip, Matcher.search_here hne, hhead]
  rfl

/-! ## Where the patterns cut an object's text -/

theorem plain_space {c : Char} (h : isSpace c = true) : Plain c ∧ c ≠ '}' := by
  refine ⟨⟨?_, ?_, ?_⟩, ?_⟩ <;> (rintro rfl; revert h; decide)

theorem scan_inside_plain {t u : Text} (h : ∀ c, c ∈ t → Plain c) : scan .inside (t ++ u) = scan .inside u := by
  have hstays : scan .inside t = some .inside := by
    apply scan_stays
    intro c hc
    have ⟨hquote, _, hback⟩ := h c hc
    rw [Mode.next, if_neg hquote, if_neg hback]
  rw [scan_append, hstays, Option.bind_some]

/-- Where a backtick stands in a text that is scanned, a string is being read. -/
theorem scan_tick {a t : Text} {m : Mode} (h : scan .outside (a ++ '`' :: t) = some m) : scan .inside t = some m := by
  rw [scan_append] at h
  obtain ⟨n, -, h⟩ := Option.bind_eq_some_iff.mp h
  cases n with
  | outside => cases h
  | inside => exact h
  | escaped => exact h

/-- What a fence cuts out of a scanned text begins in a string. -/
theorem scan_hidden {a tag lead f t : Text} (htag : tag = [] ∨ tag = jsonTag) (hlead : AllSpace lead)
    (h : scan .outside (a ++ (fenceMark ++ (tag ++ (lead ++ (f ++ t))))) = some .outside) : ∃ m, scan .inside f = some m := by
  have hplain : ∀ c, c ∈ tag → Plain c := by
    rcases htag with rfl | rfl
    · exact fun c hc => nomatch hc
    · simp [jsonTag, Plain]
  have hticks : scan .inside ('`' :: '`' :: (tag ++ (lead ++ (f ++ t)))) = some .outside := scan_tick h
  have hinside : scan .inside (tag ++ (lead ++ (f ++ t))) = some .outside := hticks
  rw [scan_inside_plain hplain, scan_inside_plain fun c hc => (plain_space (hlead c hc)).1, scan_append] at hinside
  obtain ⟨m, hm, -⟩ := Option.bind_eq_some_iff.mp hinside
  exact ⟨m, hm⟩

/-- A text that is cut before the end of a fence is cut in a string. -/
theorem scan_cut {f trail t : Text} (htrail : AllSpace trail) (hf : scan .outside f = some .outside) :
    scan .outside (f ++ (trail ++ (fenceMark ++ t))) = none := by
  rw [scan_append, hf, Option.bind_some, scan_append, scan_plain fun c hc => (plain_space (htrail c hc)).1]
  rfl

section
variable {F : Type} {floats : Floats F}

theorem dumpsMembers_last (floats : Floats F) (members : List (Str × Json F)) :
    ∃ t, dumpsMembers floats members = t ++ ['}'] := by
  induction members with
  | nil => exact ⟨[], rfl⟩
  | cons member members ih =>
    obtain ⟨t, ht⟩ := ih
    exact ⟨',' :: ' ' :: (quote member.1 ++ (':' :: ' ' :: (dumps floats member.2 ++ t))), by
      simp only [dumpsMembers, ht, List.cons_append, List.append_assoc]⟩

theorem dumps_braces (floats : Floats F) (members : List (Str × Json F)) :
    ∃ core, dumps floats (.obj members) = '{' :: (core ++ ['}']) := by
  cases members with
  | nil => exact ⟨[], rfl⟩
  | cons member members =>
    obtain ⟨t, ht⟩ := dumpsMembers_last floats members
    exact ⟨quote member.1 ++ (':' :: ' ' :: (dumps floats member.2 ++ t)), by
      simp only [dumps, ht, List.cons_append, List.append_assoc]⟩

theorem loaded_of_extract {raw : Text} {v : Json F} (h : extractJson floats raw = .ok v) :
    ∃ t, Matcher.search braces ((Matcher.search fence raw).getD raw) = some t ∧ loads floats t = .ok v := by
  unfold extractJson at h
  dsimp only at h
  split at h
  · cases h
  · next t ht =>
    refine ⟨t, ht, ?_⟩
    split at h
    · next hload => exact hload.trans (congrArg Except.ok (Except.ok.inj h))
    · cases h
    · cases h

theorem extract_of_loaded {raw t : Text} {v : Json F}
    (ht : Matcher.search braces ((Matcher.search fence raw).getD raw) = some t) (hload : loads floats t = .ok v) :
    extractJson floats raw = .ok v := by
  unfold extractJson
  simp only [ht, hload]

theorem search_group (core : Text) :
    Matcher.search braces ('{' :: (core ++ ['}'])) = some ('{' :: (core ++ ['}'])) :=
  search_braces (a := []) (b := []) List.not_mem_nil List.not_mem_nil

/-! ## Outside a fence -/

/-- What is found in a bare reply is found in the object's text. -/
theorem hidden_of_found {before after : Prose} {s f : Text}
    (h : Matcher.search fence (before.text ++ (s ++ after.text)) = some f) :
    ∃ a tag lead body trail b, (tag = [] ∨ tag = jsonTag) ∧ AllSpace lead ∧ AllSpace trail ∧ f = '{' :: (body ++ ['}']) ∧
      s = a ++ (fenceMark ++ (tag ++ (lead ++ (f ++ (trail ++ (fenceMark ++ b)))))) := by
  obtain ⟨a, t, u, he, hmem⟩ := Matcher.search_found h
  obtain ⟨tag, lead, body, trail, htag, hlead, htrail, rfl, rfl⟩ := mem_fence.mp hmem
  have hbefore : '`' ∉ before.text := fun hc => (before.plain _ hc).2.2 rfl
  have hafter : '`' ∉ after.text := fun hc => (after.plain _ hc).2.2 rfl
  obtain ⟨a', -, he⟩ := split_before hbefore he
  -- the last character of the match is a backtick, too
  have hlast : s ++ after.text = (a' ++ ('`' :: '`' :: '`' :: (tag ++ (lead ++ ('{' :: (body ++ ('}' :: (trail ++
      ['`', '`'])))))))) ++ '`' :: u := by
    rw [he]
    simp [fenceMark]
  obtain ⟨b, hs, -⟩ := split_after hafter hlast
  refine ⟨a', tag, lead, body, trail, b, htag, hlead, htrail, rfl, ?_⟩
  rw [hs]
  simp [fenceMark]

theorem found_of_hidden (before after : Text) {s : Text} (h : ModelReply.HidesFence s) :
    ∃ f, Matcher.search fence (before ++ (s ++ after)) = some f := by
  obtain ⟨a, tag, lead, body, trail, b, htag, hlead, htrail, rfl⟩ := h
  refine Option.ne_none_iff_exists'.mp fun hnone => ?_
  have hnil := Matcher.search_eq_none.mp hnone (before ++ a)
    (fenceMark ++ (tag ++ (lead ++ ('{' :: (body ++ ('}' :: (trail ++ (fenceMark ++ (b ++ after)))))))))
    (by simp only [List.append_assoc, List.cons_append])
  exact List.ne_nil_of_mem (mem_fence.mpr ⟨tag, lead, body, trail, htag, hlead, htrail, rfl, rfl⟩) hnil

theorem extract_bare {before after : Prose} {o : Object F} (ho : ∀ s, s ∈ (Json.obj o.members).strings → Unpaired s)
    (hfree : ¬ModelReply.HidesFence (dumps floats (.obj o.members))) :
    extractJson floats (before.text ++ (dumps floats (.obj o.members) ++ after.text)) = .ok (.obj o.members) := by
  have hload := loads_dumps floats ho
  obtain ⟨core, hcore⟩ := dumps_braces floats o.members
  have hnone : Matcher.search fence (before.text ++ (dumps floats (.obj o.members) ++ after.text)) = none := by
    by_contra hne
    obtain ⟨f, hf⟩ := Option.ne_none_iff_exists'.mp hne
    obtain ⟨a, tag, lead, body, trail, b, htag, hlead, htrail, rfl, hs⟩ := hidden_of_found hf
    exact hfree ⟨a, tag, lead, body, trail, b, htag, hlead, htrail, by
      rw [hs]
      simp only [List.cons_append, List.append_assoc, List.nil_append]⟩
  refine extract_of_loaded ?_ hload
  rw [hnone, Option.getD_none, hcore]
  have hbraces : Matcher.search braces (before.text ++ ('{' :: (core ++ ('}' :: after.text)))) = _ := search_braces
    (fun hc => (before.plain _ hc).1 rfl) (fun hc => (after.plain _ hc).2.1 rfl)
  simpa only [List.cons_append, List.append_assoc, List.nil_append] using hbraces

/-- A fence that is hidden in an object's text gives no object with a backtick. -/
theorem not_extract_hidden {before after : Prose} {o : Object F}
    (ho : ∀ s, s ∈ (Json.obj o.members).strings → Unpaired s)
    (hhidden : ModelReply.HidesFence (dumps floats (.obj o.members))) {v : Json F}
    (h : extractJson floats (before.text ++ (dumps floats (.obj o.members) ++ after.text)) = .ok v) :
    (∃ s, s ∈ (Json.obj o.members).strings ∧ Ticked s) ∧ ∀ s, s ∈ v.strings → ¬Ticked s := by
  obtain ⟨-, used, he, hscan, -⟩ := reads_loads (loads_dumps floats ho)
  rw [List.append_nil] at he
  rw [← he] at hscan
  obtain ⟨f, hf⟩ := found_of_hidden before.text after.text hhidden
  obtain ⟨a, tag, lead, body, trail, b, htag, hlead, -, rfl, hs⟩ := hidden_of_found hf
  obtain ⟨t, ht, hload⟩ := loaded_of_extract h
  rw [hf, Option.getD_some, search_group] at ht
  cases ht
  obtain ⟨-, used, he', hscan', hstrings⟩ := reads_loads hload
  rw [List.append_nil] at he'
  rw [← he'] at hscan' hstrings
  obtain ⟨m, hm⟩ := scan_hidden htag hlead (hs ▸ hscan)
  have ⟨htick, hback⟩ := scan_both (Or.inl ⟨rfl, rfl⟩) hscan' hm
  have hmark : '`' ∈ dumps floats (.obj o.members) := by
    rw [hs]
    exact List.mem_append_right _ List.mem_cons_self
  exact ⟨tick_dumps _ hmark, fun s hmem hticked => htick (hstrings hback s hmem _ hticked)⟩

/-! ## Inside a fence -/

/-- The group of a fenced reply is the object's text, or it is cut before the end of one. -/
theorem search_fenced (before after : Prose) (lead trail : Space) (core : Text) :
    ∃ body, Matcher.search fence (before.text ++ (fenceMark ++ (jsonTag ++ (lead.text ++ (('{' :: (core ++ ['}'])) ++
        (trail.text ++ (fenceMark ++ after.text))))))) = some ('{' :: (body ++ ['}'])) ∧
      (∀ other, Closes other (core ++ ('}' :: (trail.text ++ (fenceMark ++ after.text)))) → body.length ≤ other.length) ∧
      (body = core ∨ ∃ trail' b, AllSpace trail' ∧
        '{' :: (core ++ ['}']) = ('{' :: (body ++ ['}'])) ++ (trail' ++ (fenceMark ++ b))) := by
  have hbefore : '`' ∉ before.text := fun hc => (before.plain _ hc).2.2 rfl
  have hwhole : Closes core (core ++ ('}' :: (trail.text ++ (fenceMark ++ after.text)))) :=
    ⟨trail.text, after.text, trail.space, rfl⟩
  have hne : fenceBody (core ++ ('}' :: (trail.text ++ (fenceMark ++ after.text)))) ≠ [] :=
    List.ne_nil_of_mem (mem_fenceBody.mpr ⟨core, trail.text, trail.space, rfl, rfl⟩)
  obtain ⟨⟨f, u⟩, rs, hbody⟩ := List.exists_cons_of_ne_nil hne
  obtain ⟨body, rfl, hcloses, hshort⟩ := fenceBody_shortest (by rw [hbody]; rfl)
  have hfound := search_fence hbefore lead.space hbody
  refine ⟨body, ?_, hshort, ?_⟩
  · simpa only [List.cons_append, List.append_assoc, List.nil_append] using hfound
  · obtain ⟨trail', u', htrail', he⟩ := hcloses
    have hlen := hshort core hwhole
    rcases List.append_eq_append_iff.mp he with ⟨more, rfl, -⟩ | ⟨more, hcore, he⟩
    · rw [List.length_append] at hlen
      exact Or.inl (by rw [List.length_eq_zero_iff.mp (show more.length = 0 by omega), List.append_nil])
    · cases more with
      | nil => exact Or.inl (hcore.trans (List.append_nil body)).symm
      | cons c more =>
        obtain ⟨rfl, hmore⟩ := List.cons.inj he
        have hclose : '}' ∉ trail' ++ fenceMark := by
          rw [List.mem_append, not_or]
          exact ⟨fun hc => (plain_space (htrail' _ hc)).2 rfl, by decide⟩
        rw [← List.append_assoc] at hmore
        obtain ⟨b, rfl, -⟩ := split_before hclose hmore
        exact Or.inr ⟨trail', b ++ ['}'], htrail', by
          rw [hcore]
          simp only [List.cons_append, List.append_assoc, List.nil_append]⟩

theorem extract_fenced {before after : Prose} {lead trail : Space} {o : Object F}
    (ho : ∀ s, s ∈ (Json.obj o.members).strings → Unpaired s) :
    extractJson floats ((ModelReply.fenced before lead trail after).text (dumps floats (.obj o.members))) =
        .ok (.obj o.members) ↔ ¬ModelReply.ClosesEarly (dumps floats (.obj o.members)) := by
  have hload := loads_dumps floats ho
  obtain ⟨-, used, he, hscan, -⟩ := reads_loads hload
  rw [List.append_nil] at he
  rw [← he] at hscan
  obtain ⟨core, hcore⟩ := dumps_braces floats o.members
  rw [ModelReply.text]
  rw [hcore] at hload hscan ⊢
  obtain ⟨body, hfound, hshort, hcut⟩ := search_fenced before after lead trail core
  constructor
  · rintro h ⟨a, trail', b, htrail', ha⟩
    obtain ⟨t, ht, hloaded⟩ := loaded_of_extract h
    rw [hfound, Option.getD_some, search_group] at ht
    cases ht
    obtain ⟨-, used, he', hscan', -⟩ := reads_loads hloaded
    rw [List.append_nil] at he'
    rw [← he'] at hscan'
    rcases hcut with rfl | ⟨trail'', b', htrail'', hcut⟩
    · -- a group that is the whole is not the shortest
      cases a with
      | nil => exact absurd (List.cons.inj ha).1 (by decide)
      | cons c a =>
        have ha' : body ++ ['}'] = a ++ ('}' :: (trail' ++ (fenceMark ++ b))) := (List.cons.inj ha).2
        have hlen := congrArg List.length ha'
        have hle := hshort a ⟨trail', b ++ (trail.text ++ (fenceMark ++ after.text)), htrail', by
          rw [List.append_cons, ha']
          simp only [List.cons_append, List.append_assoc]⟩
        simp only [List.length_append, List.length_cons, List.length_nil, fenceMark] at hlen
        omega
    · rw [hcut, scan_cut htrail'' hscan'] at hscan
      cases hscan
  · intro hfree
    have hbody : body = core := by
      refine hcut.resolve_right ?_
      rintro ⟨trail', b, htrail', hcut⟩
      exact hfree ⟨'{' :: body, trail', b, htrail', by
        rw [hcut]
        simp only [List.cons_append, List.append_assoc, List.nil_append]⟩
    refine extract_of_loaded ?_ hload
    rw [hfound, Option.getD_some, hbody, search_group]

/-! ## Every reply -/

/-- The object comes back exactly when no string of it pairs up surrogates and its text does
not read as a fence, or inside a fence as the end of one. -/
theorem reply_recovered (floats : Floats F) (reply : ModelReply) (o : Object F) :
    extractJson floats (reply.text (dumps floats (.obj o.members))) = .ok (.obj o.members) ↔
      (∀ s, s ∈ (Json.obj o.members).strings → Unpaired s) ∧ ¬reply.Misread (dumps floats (.obj o.members)) := by
  have hunpaired : extractJson floats (reply.text (dumps floats (.obj o.members))) = .ok (.obj o.members) →
      ∀ s, s ∈ (Json.obj o.members).strings → Unpaired s := by
    intro h
    obtain ⟨t, -, hload⟩ := loaded_of_extract h
    exact (reads_loads hload).unpaired
  constructor
  · intro h
    have ho := hunpaired h
    refine ⟨ho, ?_⟩
    cases reply with
    | bare before after =>
      intro hhidden
      obtain ⟨⟨s, hs, htick⟩, hno⟩ := not_extract_hidden ho hhidden h
      exact hno s hs htick
    | fenced before lead trail after => exact (extract_fenced ho).mp h
  · rintro ⟨ho, hfree⟩
    cases reply with
    | bare before after => exact extract_bare ho hfree
    | fenced before lead trail after => exact (extract_fenced ho).mpr hfree

end

/-! A note quoting an empty object in a fence. -/

def nanOnly : Floats Unit where
  repr _ := .nan
  read _ := ()
  read_repr _ := rfl
  repr_wf _ _ h := nomatch h

def fencedNote : Object Unit where
  members := [([.char 'a'], .str (['`', '`', '`', '{', '}', '`', '`', '`'].map .char))]
  distinct := ⟨List.nodup_singleton _, trivial, trivial⟩

def noProse : Prose := ⟨[], nofun⟩

theorem fence_in_string_taken :
    (extractJson nanOnly ((ModelReply.bare noProse noProse).text (dumps nanOnly (.obj fencedNote.members))) =
      .ok (.obj [])) ∧ Json.obj fencedNote.members ≠ .obj [] :=
  ⟨rfl, nofun⟩

end DocPipeline.Audit
