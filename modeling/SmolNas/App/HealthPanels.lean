import SmolNas.App.Commands
import SmolNas.App.HealthPage
import SmolNas.Lib.Markup
import SmolNas.Py.Lines
import SmolNas.Py.SplitMax

/-! The logs and the services of `api_health_data`, and what `templates/health.html` makes of
them and of the disk's names: the markup that it puts into its panels is read as the template,
with the data as texts. -/

namespace SmolNas.App

open Py Lib

section Data

structure LogEntry where
  time : Str
  level : Str
  msg : Str
  deriving DecidableEq, Repr

/-- `upper` stands for `str.upper`. -/
def logLevel (upper : Str → Str) (line : Str) : Str :=
  if (["ERROR", "FAIL", "CRIT"].map String.toList).any (contains (upper line)) then
    "ERROR".toList
  else "INFO".toList

/-- The entry of a line of the journal, for a line of at least five words. -/
def logEntry (upper : Str → Str) (line : Str) : Option LogEntry :=
  let parts := splitMax 4 line
  if 5 ≤ parts.length then
    some ⟨parts.headD [], logLevel upper line, join [' '] (parts.drop 3)⟩
  else none

def journalLogs (upper : Str → Str) (printed : Option Str) : List LogEntry :=
  match printed with
  | none => []
  | some out => (splitlines out).filterMap (logEntry upper)

def serviceStatus : Outcome → Str
  | .completed returncode stdout _ =>
      orElse (strip stdout) (if returncode = 0 then "active".toList else "inactive".toList)
  | .raised _ _ => "unknown".toList

def ownService : Str := "nas-ui".toList

/-- The services with their status, in the order of their names in the JSON. -/
def serviceStatuses (answers : Str → Outcome) : List (Str × Str) :=
  (["nas-ui", "nmbd", "smbd", "ssh"].map String.toList).map fun name =>
    (name, if name = ownService then "active".toList else serviceStatus (answers name))

end Data

section Page

def charUnits (c : Char) : Units :=
  if c.toNat < 0x10000 then [c.toNat.toUInt16]
  else
    [(0xD800 + (c.toNat - 0x10000) / 0x400).toUInt16,
      (0xDC00 + (c.toNat - 0x10000) % 0x400).toUInt16]

def utf16 (s : Str) : Units := s.flatMap charUnits

def logClass (level : Units) : Units :=
  if esc (some level) = units "ERROR" then units "text-red" else units "text-cyan"

def logRow (time level msg : Units) : Units :=
  (units "<div style=\"margin-bottom:4px;border-bottom:1px solid rgba(255,255,255,0.05);\">\n" ++
    units "                    <span style=\"color:var(--text-secondary);\">[") ++
  esc (some time) ++
  units "]</span>\n                    <span class=\"" ++ logClass level ++
  units "\" style=\"font-weight:bold;\"> " ++ esc (some level) ++ units "</span>: " ++
  esc (some msg) ++ units "\n                </div>"

def noLogs : Units :=
  units "<div style=\"color:var(--text-secondary);\">No recent log entries available.</div>"

def logsPanel (logs : List LogEntry) : Units :=
  if logs = [] then noLogs
  else logs.flatMap fun e => logRow (utf16 e.time) (utf16 e.level) (utf16 e.msg)

def isActive (status : Units) : Bool := status == units "active" || status == units "running"

def serviceBadge (status : Units) : Units :=
  if isActive status then units "<span style=\"color:var(--accent-green);\">Running</span>"
  else units "<span style=\"color:var(--accent-red);\">" ++ esc (some status) ++ units "</span>"

/-- `encodeURIComponent` leaves the names of the services as they are. -/
def restartButton (csrfToken name : Units) : Units :=
  if name ≠ units "nas-ui" then
    units "<form action=\"/service/restart/" ++ name ++
    (units "\" method=\"POST\" style=\"display:inline;\">\n" ++
      units "                       <input type=\"hidden\" name=\"csrf_token\" value=\"") ++
    csrfToken ++
    (units "\">\n                       " ++
      units "<button style=\"padding:2px 8px;font-size:0.7rem;\">Restart</button>\n" ++
      units "                   </form>")
  else []

def serviceRow (csrfToken name status : Units) : Units :=
  units "<tr>\n                <td style=\"text-transform:capitalize;\">" ++ esc (some name) ++
  units "</td>\n                <td>" ++ serviceBadge status ++
  units "</td>\n                <td style=\"text-align:right;\">" ++ restartButton csrfToken name ++
  units "</td>\n            </tr>"

def servicesPanel (csrfToken : Units) (services : List (Str × Str)) : Units :=
  services.flatMap fun s => serviceRow csrfToken (utf16 s.1) (utf16 s.2)

/-- A temperature above zero, as it is shown, with whether it is below 50. -/
structure Temperature where
  shown : Units
  cool : Bool

def temperatureColor : Option Temperature → Units
  | some t => if t.cool then units "var(--accent-green)" else units "var(--accent-red)"
  | none => units "var(--text-secondary)"

def temperatureText : Option Temperature → Units
  | some t => t.shown ++ units "°C"
  | none => units "N/A"

/-- `value || '—'` -/
def orDash (value : Option Units) : Units :=
  if value.getD [] = [] then units "—" else value.getD []

def detailsPanel (model serial : Option Units) (temperature : Option Temperature) : Units :=
  (units "\n            <tr>\n" ++
    units "                <td style=\"width:40%;color:var(--text-secondary);\">Model</td>\n" ++
    units "                <td>") ++
  esc (some (orDash model)) ++
  (units "</td>\n            </tr>\n            <tr>\n" ++
    units "                <td style=\"color:var(--text-secondary);\">Serial</td>\n" ++
    units "                <td style=\"font-family:monospace;\">") ++
  esc (some (orDash serial)) ++
  (units "</td>\n            </tr>\n            <tr>\n" ++
    units "                <td style=\"color:var(--text-secondary);\">Temp</td>\n" ++
    units "                <td><span style=\"color:") ++
  temperatureColor temperature ++ units ";\">" ++ esc (some (temperatureText temperature)) ++
  units "</span></td>\n            </tr>"

end Page

section Pieces

/-- What the browser reads: tags in brackets, and texts with the entities of `esc`. -/
def pageMarkup : Markup UInt16 := ⟨escEntities, unit '<', unit '>', by decide, by decide⟩

def tag (inner : String) : Piece UInt16 := .tag (units inner)

def text (s : String) : Piece UInt16 := .text (units s)

def Closed : Piece UInt16 → Prop
  | .tag inner => pageMarkup.closing ∉ inner
  | .text _ => True

def logPieces (time level msg : Units) : List (Piece UInt16) :=
  [tag "div style=\"margin-bottom:4px;border-bottom:1px solid rgba(255,255,255,0.05);\"",
    text "\n                    ", tag "span style=\"color:var(--text-secondary);\"", text "[",
    .text time, text "]", tag "/span", text "\n                    ",
    .tag (units "span class=\"" ++ logClass level ++ units "\" style=\"font-weight:bold;\""),
    text " ", .text level, tag "/span", text ": ", .text msg, text "\n                ",
    tag "/div"]

theorem esc_text (s : Units) : esc (some s) = pageMarkup.writePiece (.text s) := esc_eq_escape s

/-- The units of a literal by its characters: checking them does not decode the literal. -/
theorem units_ofList (chars : Str) : units (String.ofList chars) = chars.map unit := by
  rw [units, String.toList_ofList]

theorem log_texts :
    units "<div style=\"margin-bottom:4px;border-bottom:1px solid rgba(255,255,255,0.05);\">\n" ++
        units "                    <span style=\"color:var(--text-secondary);\">[" =
      pageMarkup.write
        [tag "div style=\"margin-bottom:4px;border-bottom:1px solid rgba(255,255,255,0.05);\"",
          text "\n                    ", tag "span style=\"color:var(--text-secondary);\"",
          text "["] ∧
    units "]</span>\n                    <span class=\"" =
      pageMarkup.write [text "]", tag "/span", text "\n                    "] ++
        unit '<' :: units "span class=\"" ∧
    units "\" style=\"font-weight:bold;\"> " =
      units "\" style=\"font-weight:bold;\"" ++ unit '>' :: pageMarkup.write [text " "] ∧
    units "</span>: " = pageMarkup.write [tag "/span", text ": "] ∧
    units "\n                </div>" =
      pageMarkup.write [text "\n                ", tag "/div"] := by
  unfold tag text
  repeat rw [units_ofList]
  exact ⟨rfl, rfl, rfl, rfl, rfl⟩

theorem write_log (time level msg : Units) :
    pageMarkup.write (logPieces time level msg) = logRow time level msg := by
  rcases log_texts with ⟨opens, color, style, named, closes⟩
  rw [logRow, opens, color, style, named, closes, esc_text, esc_text, esc_text]
  simp only [Markup.write, logPieces, List.flatMap_cons, List.flatMap_nil, Markup.writePiece,
    List.append_assoc, List.cons_append, List.nil_append, List.append_nil]
  rfl

def badgePieces (status : Units) : List (Piece UInt16) :=
  if isActive status then
    [tag "span style=\"color:var(--accent-green);\"", text "Running", tag "/span"]
  else [tag "span style=\"color:var(--accent-red);\"", .text status, tag "/span"]

def restartPieces (csrfToken name : Units) : List (Piece UInt16) :=
  if name ≠ units "nas-ui" then
    [.tag (units "form action=\"/service/restart/" ++ name ++
        units "\" method=\"POST\" style=\"display:inline;\""),
      text "\n                       ",
      .tag (units "input type=\"hidden\" name=\"csrf_token\" value=\"" ++ csrfToken ++ units "\""),
      text "\n                       ", tag "button style=\"padding:2px 8px;font-size:0.7rem;\"",
      text "Restart", tag "/button", text "\n                   ", tag "/form"]
  else []

def servicePieces (csrfToken name status : Units) : List (Piece UInt16) :=
  [tag "tr", text "\n                ", tag "td style=\"text-transform:capitalize;\"", .text name,
    tag "/td", text "\n                ", tag "td"] ++
  badgePieces status ++
  [tag "/td", text "\n                ", tag "td style=\"text-align:right;\""] ++
  restartPieces csrfToken name ++ [tag "/td", text "\n            ", tag "/tr"]

theorem service_texts :
    (units "<span style=\"color:var(--accent-green);\">Running</span>" = pageMarkup.write
        [tag "span style=\"color:var(--accent-green);\"", text "Running", tag "/span"] ∧
      units "<span style=\"color:var(--accent-red);\">" =
        pageMarkup.write [tag "span style=\"color:var(--accent-red);\""] ∧
      units "</span>" = pageMarkup.write [tag "/span"]) ∧
    (units "<form action=\"/service/restart/" =
        unit '<' :: units "form action=\"/service/restart/" ∧
      units "\" method=\"POST\" style=\"display:inline;\">\n" ++
          units "                       <input type=\"hidden\" name=\"csrf_token\" value=\"" =
        units "\" method=\"POST\" style=\"display:inline;\"" ++
          unit '>' :: pageMarkup.write [text "\n                       "] ++
            unit '<' :: units "input type=\"hidden\" name=\"csrf_token\" value=\"" ∧
      units "\">\n                       " ++
          units "<button style=\"padding:2px 8px;font-size:0.7rem;\">Restart</button>\n" ++
          units "                   </form>" =
        units "\"" ++ unit '>' :: pageMarkup.write
          [text "\n                       ",
            tag "button style=\"padding:2px 8px;font-size:0.7rem;\"", text "Restart",
            tag "/button", text "\n                   ", tag "/form"]) ∧
    units "<tr>\n                <td style=\"text-transform:capitalize;\">" =
      pageMarkup.write [tag "tr", text "\n                ",
        tag "td style=\"text-transform:capitalize;\""] ∧
    units "</td>\n                <td>" =
      pageMarkup.write [tag "/td", text "\n                ", tag "td"] ∧
    units "</td>\n                <td style=\"text-align:right;\">" =
      pageMarkup.write
        [tag "/td", text "\n                ", tag "td style=\"text-align:right;\""] ∧
    units "</td>\n            </tr>" =
      pageMarkup.write [tag "/td", text "\n            ", tag "/tr"] := by
  unfold tag text
  repeat rw [units_ofList]
  exact ⟨⟨rfl, rfl, rfl⟩, ⟨rfl, rfl, rfl⟩, rfl, rfl, rfl, rfl⟩

theorem write_badge (status : Units) :
    pageMarkup.write (badgePieces status) = serviceBadge status := by
  rcases service_texts.1 with ⟨running, opens, closes⟩
  unfold badgePieces serviceBadge
  split
  · exact running.symm
  · rw [opens, closes, esc_text]
    rfl

theorem write_restart (csrfToken name : Units) :
    pageMarkup.write (restartPieces csrfToken name) = restartButton csrfToken name := by
  rcases service_texts.2.1 with ⟨opens, input, closes⟩
  unfold restartPieces restartButton
  split
  · rw [opens, input, closes]
    simp only [Markup.write, List.flatMap_cons, List.flatMap_nil, Markup.writePiece,
      List.append_assoc, List.cons_append, List.nil_append, List.append_nil]
    rfl
  · rfl

theorem write_service (csrfToken name status : Units) :
    pageMarkup.write (servicePieces csrfToken name status) = serviceRow csrfToken name status := by
  rcases service_texts.2.2 with ⟨opens, badge, button, closes⟩
  rw [serviceRow, opens, badge, button, closes, ← write_badge, ← write_restart, esc_text]
  simp only [Markup.write, servicePieces, List.flatMap_append, List.flatMap_cons, List.flatMap_nil,
    List.append_assoc, List.append_nil]

def detailsPieces (model serial : Option Units) (temperature : Option Temperature) :
    List (Piece UInt16) :=
  [text "\n            ", tag "tr", text "\n                ",
    tag "td style=\"width:40%;color:var(--text-secondary);\"", text "Model", tag "/td",
    text "\n                ", tag "td", .text (orDash model), tag "/td", text "\n            ",
    tag "/tr", text "\n            ", tag "tr", text "\n                ",
    tag "td style=\"color:var(--text-secondary);\"", text "Serial", tag "/td",
    text "\n                ", tag "td style=\"font-family:monospace;\"", .text (orDash serial),
    tag "/td", text "\n            ", tag "/tr", text "\n            ", tag "tr",
    text "\n                ", tag "td style=\"color:var(--text-secondary);\"", text "Temp",
    tag "/td", text "\n                ", tag "td",
    .tag (units "span style=\"color:" ++ temperatureColor temperature ++ units ";\""),
    .text (temperatureText temperature), tag "/span", tag "/td", text "\n            ", tag "/tr"]

theorem details_texts :
    units "\n            <tr>\n" ++
        units "                <td style=\"width:40%;color:var(--text-secondary);\">Model</td>\n" ++
        units "                <td>" =
      pageMarkup.write
        [text "\n            ", tag "tr", text "\n                ",
          tag "td style=\"width:40%;color:var(--text-secondary);\"", text "Model", tag "/td",
          text "\n                ", tag "td"] ∧
    units "</td>\n            </tr>\n            <tr>\n" ++
        units "                <td style=\"color:var(--text-secondary);\">Serial</td>\n" ++
        units "                <td style=\"font-family:monospace;\">" =
      pageMarkup.write
        [tag "/td", text "\n            ", tag "/tr", text "\n            ", tag "tr",
          text "\n                ", tag "td style=\"color:var(--text-secondary);\"",
          text "Serial", tag "/td", text "\n                ",
          tag "td style=\"font-family:monospace;\""] ∧
    units "</td>\n            </tr>\n            <tr>\n" ++
        units "                <td style=\"color:var(--text-secondary);\">Temp</td>\n" ++
        units "                <td><span style=\"color:" =
      pageMarkup.write
        [tag "/td", text "\n            ", tag "/tr", text "\n            ", tag "tr",
          text "\n                ", tag "td style=\"color:var(--text-secondary);\"", text "Temp",
          tag "/td", text "\n                ", tag "td"] ++
        unit '<' :: units "span style=\"color:" ∧
    units ";\">" = units ";\"" ++ [unit '>'] ∧
    units "</span></td>\n            </tr>" =
      pageMarkup.write [tag "/span", tag "/td", text "\n            ", tag "/tr"] := by
  unfold tag text
  repeat rw [units_ofList]
  exact ⟨rfl, rfl, rfl, rfl, rfl⟩

theorem write_details (model serial : Option Units) (temperature : Option Temperature) :
    pageMarkup.write (detailsPieces model serial temperature) =
      detailsPanel model serial temperature := by
  rcases details_texts with ⟨opens, second, third, style, closes⟩
  rw [detailsPanel, opens, second, third, style, closes, esc_text, esc_text, esc_text]
  simp only [Markup.write, detailsPieces, List.flatMap_cons, List.flatMap_nil, Markup.writePiece,
    List.append_assoc, List.cons_append, List.nil_append, List.append_nil]
  rfl

end Pieces

section Closing

def templateTags : List String :=
  ["div style=\"margin-bottom:4px;border-bottom:1px solid rgba(255,255,255,0.05);\"",
    "div style=\"color:var(--text-secondary);\"", "/div",
    "span style=\"color:var(--text-secondary);\"", "span class=\"",
    "\" style=\"font-weight:bold;\"", "span style=\"color:var(--accent-green);\"",
    "span style=\"color:var(--accent-red);\"", "span style=\"color:", ";\"", "/span", "text-red",
    "text-cyan", "var(--accent-green)", "var(--accent-red)", "var(--text-secondary)",
    "form action=\"/service/restart/", "\" method=\"POST\" style=\"display:inline;\"",
    "input type=\"hidden\" name=\"csrf_token\" value=\"", "\"",
    "button style=\"padding:2px 8px;font-size:0.7rem;\"", "/button", "/form", "tr", "/tr", "td",
    "/td", "td style=\"text-transform:capitalize;\"", "td style=\"text-align:right;\"",
    "td style=\"width:40%;color:var(--text-secondary);\"",
    "td style=\"color:var(--text-secondary);\"", "td style=\"font-family:monospace;\""]

theorem templateTags_closed : ∀ inner ∈ templateTags, pageMarkup.closing ∉ units inner := by
  simp only [templateTags, List.forall_mem_cons]
  repeat rw [units_ofList]
  repeat' apply And.intro
  all_goals decide

theorem closed_tag {inner : String} (fixed : inner ∈ templateTags) : Closed (tag inner) :=
  templateTags_closed inner fixed

theorem closed_around {x : Units} (free : pageMarkup.closing ∉ x) {front back : String}
    (before : front ∈ templateTags) (after : back ∈ templateTags) :
    Closed (.tag (units front ++ x ++ units back)) := by
  change pageMarkup.closing ∉ units front ++ x ++ units back
  simp only [List.mem_append, not_or]
  exact ⟨⟨templateTags_closed front before, free⟩, templateTags_closed back after⟩

theorem closed_class (level : Units) : pageMarkup.closing ∉ logClass level := by
  unfold logClass
  split
  · exact templateTags_closed _ (by simp [templateTags])
  · exact templateTags_closed _ (by simp [templateTags])

theorem closed_color (temperature : Option Temperature) :
    pageMarkup.closing ∉ temperatureColor temperature := by
  unfold temperatureColor
  split
  · split
    · exact templateTags_closed _ (by simp [templateTags])
    · exact templateTags_closed _ (by simp [templateTags])
  · exact templateTags_closed _ (by simp [templateTags])

theorem closed_log (time level msg : Units) :
    ∀ piece ∈ logPieces time level msg, Closed piece := by
  have span : Closed (.tag
      (units "span class=\"" ++ logClass level ++ units "\" style=\"font-weight:bold;\"")) :=
    closed_around (closed_class level) (by simp [templateTags]) (by simp [templateTags])
  simp only [logPieces, List.forall_mem_cons]
  refine ⟨?_, trivial, ?_, trivial, trivial, trivial, ?_, trivial, span, trivial, trivial, ?_,
    trivial, trivial, trivial, ?_, by simp⟩
  all_goals exact closed_tag (by simp [templateTags])

theorem closed_restart {csrfToken name : Units} (token : pageMarkup.closing ∉ csrfToken)
    (named : pageMarkup.closing ∉ name) :
    ∀ piece ∈ restartPieces csrfToken name, Closed piece := by
  have form : Closed (.tag (units "form action=\"/service/restart/" ++ name ++
      units "\" method=\"POST\" style=\"display:inline;\"")) :=
    closed_around named (by simp [templateTags]) (by simp [templateTags])
  have input : Closed (.tag (units "input type=\"hidden\" name=\"csrf_token\" value=\"" ++
      csrfToken ++ units "\"")) :=
    closed_around token (by simp [templateTags]) (by simp [templateTags])
  unfold restartPieces
  split
  · simp only [List.forall_mem_cons]
    refine ⟨form, trivial, input, trivial, ?_, trivial, ?_, trivial, ?_, by simp⟩
    all_goals exact closed_tag (by simp [templateTags])
  · simp

theorem closed_badge (status : Units) : ∀ piece ∈ badgePieces status, Closed piece := by
  unfold badgePieces
  split
  all_goals
    simp only [List.forall_mem_cons]
    refine ⟨?_, trivial, ?_, by simp⟩
    all_goals exact closed_tag (by simp [templateTags])

theorem closed_service {csrfToken name : Units} (token : pageMarkup.closing ∉ csrfToken)
    (named : pageMarkup.closing ∉ name) (status : Units) :
    ∀ piece ∈ servicePieces csrfToken name status, Closed piece := by
  simp only [servicePieces, List.forall_mem_append, List.forall_mem_cons]
  refine ⟨⟨⟨⟨⟨?_, trivial, ?_, trivial, ?_, trivial, ?_, by simp⟩, closed_badge status⟩,
    ?_, trivial, ?_, by simp⟩, closed_restart token named⟩, ?_, trivial, ?_, by simp⟩
  all_goals exact closed_tag (by simp [templateTags])

theorem closed_details (model serial : Option Units) (temperature : Option Temperature) :
    ∀ piece ∈ detailsPieces model serial temperature, Closed piece := by
  have span : Closed
      (.tag (units "span style=\"color:" ++ temperatureColor temperature ++ units ";\"")) :=
    closed_around (closed_color temperature) (by simp [templateTags]) (by simp [templateTags])
  simp only [detailsPieces, List.forall_mem_cons]
  and_intros
  all_goals
    first
    | exact span
    | exact closed_tag (by simp [templateTags])
    | trivial
    | simp

end Closing

section Reading

theorem read_pieces {pieces : List (Piece UInt16)} (closed : ∀ piece ∈ pieces, Closed piece) :
    pageMarkup.read (pageMarkup.write pieces) = Markup.gather [] pieces :=
  Markup.read_write fun inner member => closed (.tag inner) member

theorem write_flatMap {A : Type} (rows : List A) (row : A → List (Piece UInt16)) :
    pageMarkup.write (rows.flatMap row) = rows.flatMap fun a => pageMarkup.write (row a) :=
  List.flatMap_assoc

variable {upper : Str → Str}

/-- A line gives an entry exactly when it has five words: the first one, and those from the
fourth on. -/
theorem logEntry_words (line : Str) :
    (logEntry upper line).map (fun e => (some e.time, words e.msg, e.level)) =
      if 5 ≤ (words line).length then
        some ((words line)[0]?, (words line).drop 3, logLevel upper line)
      else none := by
  rcases splitMax_words 4 line with ⟨short, long⟩
  have proper := mem_words line
  rw [logEntry]
  generalize words line = parts at *
  by_cases many : 5 ≤ parts.length
  · rcases long many with ⟨rest, split, later⟩
    rcases parts with _ | ⟨a, _ | ⟨b, _ | ⟨c, _ | ⟨d, tail⟩⟩⟩⟩
    case cons.cons.cons.cons =>
      have message : words (join [' '] [d, rest]) = d :: tail := by
        rw [join, List.intercalate_cons_cons, List.intercalate_singleton, List.append_assoc,
          List.singleton_append, words_lead (proper d (by simp)) rest (by decide), later]
        rfl
      rw [if_pos many, split]
      simpa using message
    all_goals simp at many
  · rw [if_neg many, short (by omega), if_neg many]
    rfl

def noLogPieces : List (Piece UInt16) :=
  [tag "div style=\"color:var(--text-secondary);\"", text "No recent log entries available.",
    tag "/div"]

theorem journalLogs_lines (upper : Str → Str) (printed : Option Str) :
    (journalLogs upper printed).map (fun e => (some e.time, words e.msg, e.level)) =
      ((printed.elim [] splitlines).filter fun line => 5 ≤ (words line).length).map fun line =>
        ((words line)[0]?, (words line).drop 3, logLevel upper line) := by
  cases printed with
  | none => rfl
  | some out =>
      rw [journalLogs, Option.elim_some, List.map_filterMap]
      induction splitlines out with
      | nil => rfl
      | cons line lines ih =>
          rw [List.filterMap_cons, List.filter_cons, logEntry_words]
          by_cases many : 5 ≤ (words line).length
          · rw [if_pos many, if_pos (by simpa using many)]
            exact congrArg (_ :: ·) ih
          · rw [if_neg many, if_neg (by simpa using many)]
            exact ih

theorem logsPanel_write (logs : List LogEntry) :
    logsPanel logs = pageMarkup.write (if logs = [] then noLogPieces
      else logs.flatMap fun e => logPieces (utf16 e.time) (utf16 e.level) (utf16 e.msg)) := by
  rw [logsPanel]
  split
  · unfold noLogs noLogPieces tag text
    repeat rw [units_ofList]
    rfl
  · simp only [write_flatMap, write_log]

theorem service_named {answers : Str → Outcome} {s : Str × Str}
    (member : s ∈ serviceStatuses answers) : pageMarkup.closing ∉ utf16 s.1 := by
  have names : ∀ name ∈ ["nas-ui", "nmbd", "smbd", "ssh"].map String.toList,
      pageMarkup.closing ∉ utf16 name := by decide
  rcases List.mem_map.mp member with ⟨name, known, rfl⟩
  exact names name known

/-- The log panel has a row for every line of at least five words that the journal printed, in
order, and what the browser reads of the three panels is the template's tags with the data
as texts: no journal line, status, model or serial number opens a tag. -/
theorem health_panels_read (upper : Str → Str) (printed : Option Str) (answers : Str → Outcome)
    (csrfToken : Units) (token : unit '>' ∉ csrfToken) (model serial : Option Units)
    (temperature : Option Temperature) :
    let logs := journalLogs upper printed
    let services := serviceStatuses answers
    logs.map (fun e => (some e.time, words e.msg, e.level)) =
        ((printed.elim [] splitlines).filter fun line => 5 ≤ (words line).length).map (fun line =>
          ((words line)[0]?, (words line).drop 3, logLevel upper line)) ∧
      pageMarkup.read (logsPanel logs) = Markup.gather [] (if logs = [] then noLogPieces
        else logs.flatMap fun e => logPieces (utf16 e.time) (utf16 e.level) (utf16 e.msg)) ∧
      pageMarkup.read (servicesPanel csrfToken services) =
        Markup.gather [] (services.flatMap fun s =>
          servicePieces csrfToken (utf16 s.1) (utf16 s.2)) ∧
      pageMarkup.read (detailsPanel model serial temperature) =
        Markup.gather [] (detailsPieces model serial temperature) := by
  intro logs services
  refine ⟨journalLogs_lines upper printed, ?_, ?_, ?_⟩
  · rw [logsPanel_write]
    apply read_pieces
    split
    · simp only [noLogPieces, List.forall_mem_cons]
      refine ⟨?_, trivial, ?_, by simp⟩
      all_goals exact closed_tag (by simp [templateTags])
    · intro piece member
      rcases List.mem_flatMap.mp member with ⟨e, -, inside⟩
      exact closed_log _ _ _ piece inside
  · have rows : servicesPanel csrfToken services = pageMarkup.write (services.flatMap fun s =>
        servicePieces csrfToken (utf16 s.1) (utf16 s.2)) := by
      simp only [servicesPanel, write_flatMap, write_service]
    rw [rows]
    apply read_pieces
    intro piece member
    rcases List.mem_flatMap.mp member with ⟨s, known, inside⟩
    exact closed_service token (service_named known) _ piece inside
  · rw [← write_details]
    exact read_pieces (closed_details model serial temperature)

/-- A line of the journal that looks like markup. -/
theorem health_panels_read_script :
    pageMarkup.read (logsPanel (journalLogs id
        (some "t1 nas sshd: <script> x\nt2 nas su: no\n".toList))) =
      Markup.gather [] (logPieces (units "t1") (units "INFO") (units "<script> x")) := by
  have reads := health_panels_read id (some "t1 nas sshd: <script> x\nt2 nas su: no\n".toList)
    (fun _ => .completed 0 [] []) (units "0f") (by decide) none none none
  exact reads.2.1.trans (by decide +kernel)

end Reading

end SmolNas.App
