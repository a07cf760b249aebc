import PrecompiledHeaders.Proofs.Program.Session

/-!
# Parts by their names

Parts are checked one after the other, and the first one that cannot stand behind those before it
(`Config.Offends`) decides what the error is (`Config.checkParts_eq_error_iff`). What has passed the
check has names that are there and differ (`Config.checkParts_eq_ok_iff`). So in a configuration that
is accepted, the name of a part leads to this part and no other, wherever parts are looked up, and
other names lead to none (`Config.names_lead_to_parts`).
-/

namespace PrecompiledHeaders.Config

variable {config : Config} {text : List Char} {seen : List String} {e : ConfigError}
  {parts before after : List ProjectPart} {part : ProjectPart}

/-! ### Checked names -/

/-- Whether a part cannot stand behind others, and the error that says so: it has no name, or one that
    is used before. -/
inductive Offends (before : List ProjectPart) (part : ProjectPart) : ConfigError → Prop
  | unnamed : part.id = "" → Offends before part (.emptyField "project_parts.id")
  | repeats : part.id ≠ "" → part.id ∈ before.map ProjectPart.id →
    Offends before part (.duplicatePart part.id)

theorem checkParts_eq_ok_iff : checkParts seen parts = .ok () ↔
    (∀ part ∈ parts, part.id ≠ "" ∧ part.id ∉ seen) ∧ (parts.map ProjectPart.id).Nodup := by
  induction parts generalizing seen with
  | nil => simp [checkParts]
  | cons first rest ih =>
    rw [checkParts]
    split
    · next hunnamed => simp [hunnamed]
    split
    · next hused => simp [hused]
    next hunnamed hnew =>
    rw [ih, List.forall_mem_cons, List.map_cons, List.nodup_cons]
    constructor
    · rintro ⟨hrest, hnodup⟩
      refine ⟨⟨⟨hunnamed, hnew⟩, fun part hpart => ⟨(hrest part hpart).1, fun hseen =>
        (hrest part hpart).2 (List.mem_cons_of_mem _ hseen)⟩⟩, fun hmem => ?_, hnodup⟩
      obtain ⟨part, hpart, hid⟩ := List.mem_map.1 hmem
      exact (hrest part hpart).2 (hid ▸ List.mem_cons_self)
    · rintro ⟨⟨-, hrest⟩, hfirst, hnodup⟩
      refine ⟨fun part hpart => ⟨(hrest part hpart).1, fun hseen => ?_⟩, hnodup⟩
      rcases List.mem_cons.1 hseen with hid | hseen
      · exact hfirst (hid ▸ List.mem_map_of_mem hpart)
      · exact (hrest part hpart).2 hseen

/-- Parts behind others are checked with the names of those in use. -/
theorem checkParts_append : checkParts seen (before ++ after) =
    checkParts seen before >>= fun _ =>
      checkParts ((before.map ProjectPart.id).reverse ++ seen) after := by
  induction before generalizing seen with
  | nil => rfl
  | cons first before ih =>
    rw [List.cons_append, checkParts, checkParts]
    split
    · rfl
    split
    · rfl
    rw [ih, List.map_cons, List.reverse_cons, List.append_assoc]
    rfl

/-- The error is that of the first part that offends. -/
theorem checkParts_eq_error_iff : checkParts [] parts = .error e ↔ ∃ before part after,
    parts = before ++ part :: after ∧ checkParts [] before = .ok () ∧ Offends before part e := by
  constructor
  · intro h
    induction parts using List.reverseRecOn with
    | nil => cases h
    | append_singleton parts last ih =>
      rw [checkParts_append] at h
      cases hparts : checkParts [] parts with
      | error e' =>
        rw [hparts] at h
        cases h
        obtain ⟨before, part, after, rfl, hbefore, hoffends⟩ := ih hparts
        exact ⟨before, part, after ++ [last], by simp, hbefore, hoffends⟩
      | ok =>
        rw [hparts] at h
        refine ⟨parts, last, [], rfl, hparts, ?_⟩
        replace h : checkParts ((parts.map ProjectPart.id).reverse ++ []) [last] = .error e := h
        rw [checkParts] at h
        split at h
        · next hunnamed =>
          cases h
          exact .unnamed hunnamed
        split at h
        · next hunnamed hused =>
          cases h
          exact .repeats hunnamed (by simpa using hused)
        · cases h
  · rintro ⟨before, part, after, rfl, hbefore, hoffends⟩
    have hrest : checkParts [] (before ++ part :: after) =
        checkParts ((before.map ProjectPart.id).reverse ++ []) (part :: after) := by
      rw [checkParts_append, hbefore]
      rfl
    rw [hrest, checkParts]
    cases hoffends with
    | unnamed hunnamed => rw [if_pos hunnamed]
    | repeats hunnamed hused => rw [if_neg hunnamed, if_pos (by simpa using hused)]

/-- Parts have passed the check if none of them offends. -/
theorem checkParts_eq_ok_iff_not_offends : checkParts [] parts = .ok () ↔
    ∀ before part after, parts = before ++ part :: after → ∀ e, ¬Offends before part e := by
  constructor
  · rintro hchecked before part after rfl e hoffends
    rw [checkParts_append] at hchecked
    obtain ⟨⟨⟩, hbefore, -⟩ := Except.exists_of_bind_eq_ok hchecked
    have herror := checkParts_eq_error_iff.2 ⟨before, part, after, rfl, hbefore, hoffends⟩
    rw [checkParts_append] at herror
    cases hchecked.symm.trans herror
  · intro hnone
    cases hchecked : checkParts [] parts with
    | ok => rfl
    | error e =>
      obtain ⟨before, part, after, hsplit, -, hoffends⟩ := checkParts_eq_error_iff.1 hchecked
      exact absurd hoffends (hnone before part after hsplit e)

/-! ### Accepted configurations -/

theorem validate_eq_ok_iff : config.validate = .ok () ↔ config.compiler ≠ "" ∧
    config.frontend ≠ "" ∧ config.parts ≠ [] ∧ checkParts [] config.parts = .ok () := by
  rw [validate]
  split
  · next hcompiler => simp [hcompiler]
  split
  · next hfrontend => simp [hfrontend]
  split
  · next hparts => simp [hparts]
  next hcompiler hfrontend hparts => simp [hcompiler, hfrontend, hparts]

theorem validate_eq_checkParts (hcompiler : config.compiler ≠ "") (hfrontend : config.frontend ≠ "")
    (hparts : config.parts ≠ []) : config.validate = checkParts [] config.parts := by
  rw [validate, if_neg hcompiler, if_neg hfrontend, if_neg hparts]

/-- What a text writes is accepted as it is, or refused for what is wrong with it. -/
theorem ofText_eq (h : (Toml.parse? text).bind ofDatum? = some config) :
    ofText text = config.validate >>= fun _ => .ok config := by
  rw [ofText, h]
  rfl

theorem ofText_eq_ok_iff (h : (Toml.parse? text).bind ofDatum? = some config) :
    ofText text = .ok config ↔ config.validate = .ok () := by
  rw [ofText_eq h]
  cases config.validate with
  | error e => exact iff_of_false nofun nofun
  | ok => exact iff_of_true rfl rfl

theorem ofText_eq_error_iff (h : (Toml.parse? text).bind ofDatum? = some config) :
    ofText text = .error e ↔ config.validate = .error e := by
  rw [ofText_eq h]
  cases config.validate with
  | error e' => exact ⟨fun heq => by cases heq; rfl, fun heq => by cases heq; rfl⟩
  | ok => exact iff_of_false nofun nofun

/-! ### Looking parts up -/

/-- In checked parts, a name leads to the part that has it. -/
theorem find?_resolvePart (h : checkParts [] parts = .ok ()) (directory : Path) (hpart : part ∈ parts) :
    (parts.map (resolvePart directory)).find? (fun other => other.id = part.id) =
      some (resolvePart directory part) := by
  have hresolved : resolvePart directory part ∈ parts.map (resolvePart directory) :=
    List.mem_map_of_mem hpart
  exact find?_of_checkParts ((checkParts_map_resolvePart directory [] parts).trans h) hresolved

/-- A name that no part has leads nowhere. -/
theorem find?_resolvePart_eq_none (directory : Path) {id : String}
    (hid : id ∉ parts.map ProjectPart.id) :
    (parts.map (resolvePart directory)).find? (fun other => other.id = id) = none := by
  rw [List.find?_eq_none]
  rintro resolved hresolved heq
  obtain ⟨part, hpart, rfl⟩ := List.mem_map.1 hresolved
  exact hid (List.mem_map.2 ⟨part, hpart, of_decide_eq_true heq⟩)

/-- A configuration that a text writes is accepted if compiler and frontend are named, there is a part,
    and the parts have names that differ. If only the names of parts are wrong, the first part that
    offends decides what the error is. In what is accepted, the name of each part leads to just this
    part, with its paths resolved, and every other name is unknown. -/
theorem names_lead_to_parts (h : (Toml.parse? text).bind ofDatum? = some config) :
    (ofText text = .ok config ↔ config.compiler ≠ "" ∧ config.frontend ≠ "" ∧ config.parts ≠ [] ∧
      (∀ part ∈ config.parts, part.id ≠ "") ∧ (config.parts.map ProjectPart.id).Nodup) ∧
    (config.compiler ≠ "" → config.frontend ≠ "" → config.parts ≠ [] → ∀ e,
      ofText text = .error e ↔ ∃ before part after, config.parts = before ++ part :: after ∧
        Offends before part e ∧
        ∀ front other back, before = front ++ other :: back → ∀ e', ¬Offends front other e') ∧
    (ofText text = .ok config → ∀ (directory : Path) (g : Generator) (session : Program.Session)
      (file : Path), g.parts = (config.resolve directory).parts →
        session.config = config.resolve directory →
      (∀ i (hi : i < config.parts.length),
        g.part config.parts[i].id = .ok (resolvePart directory config.parts[i]) ∧
        session.selectPart file (some config.parts[i].id) =
          .ok (resolvePart directory config.parts[i])) ∧
      ∀ id, id ∉ config.parts.map ProjectPart.id →
        g.part id = .error (.unknownPart id) ∧
        session.selectPart file (some id) = .error (.generation (.unknownPart id))) := by
  refine ⟨?_, fun hcompiler hfrontend hparts e => ?_,
    fun haccepted directory g session file hg hsession => ?_⟩
  · rw [ofText_eq_ok_iff h, validate_eq_ok_iff, checkParts_eq_ok_iff]
    simp
  · rw [ofText_eq_error_iff h, validate_eq_checkParts hcompiler hfrontend hparts,
      checkParts_eq_error_iff]
    refine exists_congr fun before => exists_congr fun part => exists_congr fun after => ?_
    rw [checkParts_eq_ok_iff_not_offends, and_comm (a := Offends before part e)]
  · have hchecked := checkParts_of_validate ((ofText_eq_ok_iff h).1 haccepted)
    constructor
    · intro i hi
      have hfind := find?_resolvePart hchecked directory (List.getElem_mem hi)
      refine ⟨?_, ?_⟩
      · rw [Generator.part, hg, resolve, hfind]
      · rw [Program.Session.selectPart, hsession, resolve, hfind]
    · intro id hid
      have hfind := find?_resolvePart_eq_none directory hid
      refine ⟨?_, ?_⟩
      · rw [Generator.part, hg, resolve, hfind]
      · rw [Program.Session.selectPart, hsession, resolve, hfind]

/-- A text that writes two parts, the second one with a header. -/
def pairText : List Char :=
  "[compiler]\npath='c'\n[[project_parts]]\nid='a'\n[[project_parts]]\nid='b'\nheaders=['x.h']\n".toList

/-- What the text writes. -/
def pair : Config :=
  ⟨"c", "scan", ".", ".pchd", 0, [⟨"a", [], [], []⟩, ⟨"b", [], [.ofString "x.h"], []⟩]⟩

theorem names_lead_to_parts_pair : (Toml.parse? pairText).bind ofDatum? = some pair ∧
    ofText pairText = .ok pair ∧
    ∀ (session : Program.Session) (file : Path), session.config = pair.resolve (.ofString "/w") →
      session.selectPart file (some "b") = .ok ⟨"b", [], [.ofString "/w/x.h"], []⟩ ∧
      session.selectPart file (some "c") = .error (.generation (.unknownPart "c")) := by
  have hwrites : (Toml.parse? pairText).bind ofDatum? = some pair := by decide +kernel
  obtain ⟨haccepted, -, hlookup⟩ := names_lead_to_parts hwrites
  have hpair : ofText pairText = .ok pair := haccepted.2 (by decide)
  refine ⟨hwrites, hpair, fun session file hsession => ?_⟩
  have hparts : (session.generator default).parts = (pair.resolve (.ofString "/w")).parts :=
    congrArg Resolved.parts hsession
  obtain ⟨hknown, hunknown⟩ := hlookup hpair _ (session.generator default) session file hparts hsession
  refine ⟨(hknown 1 (by decide)).2.trans ?_, (hunknown "c" (by decide)).2⟩
  exact congrArg Except.ok (by decide +kernel)

end PrecompiledHeaders.Config
