import GenieClaw.Dispatch.HomeTools
import GenieClaw.Skills.Loader

/-!
# The tools the model is told of

Three tables name the tools: the definitions in the system prompt, the names the parser
knows, and the branches of the dispatch. The first two depend on the configuration, all
three on the loaded skills.

* `tools_agree_iff` (no assumption): the tables agree exactly when no loaded skill has the name of a
  built-in tool.
-/

namespace GenieClaw.Dispatch

open Library GenieClaw.Parser Skills List

structure ToolDef where
  name : String
  description : String
  parameters : Json

/-! ## The built-in tools -/

inductive BuiltIn where
  | homeControl
  | homeStatus
  | homeUndo
  | actionHistory
  | setTimer
  | getTime
  | getWeather
  | webSearch
  | systemInfo
  | calculate
  | playMedia
  | memoryRecall
  | memoryStatus
  | memoryForget
  | memoryStore
deriving DecidableEq

def property (type description : String) : Json :=
  .object [("description", .string description), ("type", .string type)]

def enumProperty (description : String) (values : List String) : Json :=
  .object
    [("description", .string description), ("enum", .array (values.map .string)),
      ("type", .string "string")]

def noParameters : Json := .object [("properties", .object []), ("type", .string "object")]

/-- A parameter schema with required properties. -/
def parameterSchema (properties : List (String × Json)) (required : List String) : Json :=
  .object
    [("properties", .object properties), ("required", .array (required.map .string)),
      ("type", .string "object")]

/-- The definition each tool gives of itself. -/
def BuiltIn.toolDef : BuiltIn → ToolDef
  | .homeControl =>
    { name := "home_control"
      description := "Control Home Assistant devices, scenes, and voice-safe routines. " ++
        "Use for lights, switches, climate, safe covers, and scene activation. Risky actions " ++
        "like locks, garage doors, cameras, and alarms require local confirmation and may be " ++
        "blocked."
      parameters := parameterSchema
        [("action", .object
            [("enum", .array (["turn_on", "turn_off", "toggle", "set_brightness",
              "set_temperature", "open", "close", "lock", "unlock", "activate"].map .string)),
              ("type", .string "string")]),
          ("entity", property "string" ("Household-facing target such as 'living room lights', " ++
            "'thermostat', 'front door lock', or 'movie night'")),
          ("value", property "number" ("Optional value. Brightness may be 0-100 percent or " ++
            "0-255. Temperature is in degrees."))]
        ["entity", "action"] }
  | .homeStatus =>
    { name := "home_status"
      description := "Get the current status of a smart home device, room lights, " ++
        "thermostat, lock, cover, scene, or other Home Assistant target."
      parameters := parameterSchema
        [("entity", property "string" ("Household-facing target to query, such as " ++
          "'living room lights' or 'front door lock'"))]
        ["entity"] }
  | .homeUndo =>
    { name := "home_undo"
      description := "Undo the most recent reversible home action. Use when the user says " ++
        "undo, put it back, revert that, or asks you to reverse the last device action. Still " ++
        "goes through runtime safety and may require confirmation."
      parameters := noParameters }
  | .actionHistory =>
    { name := "action_history"
      description := "Report recent physical home actions and pending confirmations. Use " ++
        "when the user asks what you did, what changed, recent actions, or pending " ++
        "confirmations."
      parameters := noParameters }
  | .setTimer =>
    { name := "set_timer"
      description := "Set a countdown timer. Use for 'set a timer for 10 minutes', 'remind me " ++
        "in 5 minutes'."
      parameters := parameterSchema
        [("label", property "string" "What the timer is for"),
          ("seconds", property "integer" "Duration in seconds")]
        ["seconds"] }
  | .getTime =>
    { name := "get_time"
      description := "Get the current date and time."
      parameters := noParameters }
  | .getWeather =>
    { name := "get_weather"
      description := "Get current weather or forecast for a location. Use for any weather " ++
        "question."
      parameters := parameterSchema
        [("forecast", property "boolean" "true for 7-day forecast, false for current weather"),
          ("location", property "string" "City name (e.g., 'Denver', 'Tokyo', 'London')")]
        ["location"] }
  | .webSearch =>
    { name := "web_search"
      description := "Search the public web using a free no-key provider. Use for current or " ++
        "recent public facts, online lookup requests, and explicit web search requests. Do not " ++
        "use for private memory, local system status, or Home Assistant state."
      parameters := parameterSchema
        [("fresh", property "boolean" "Bypass cached results and fetch fresh results"),
          ("limit", .object
            [("description", .string "Maximum number of results to return"),
              ("maximum", .number (.posInt 5)), ("minimum", .number (.posInt 1)),
              ("type", .string "integer")]),
          ("query", property "string" "Search query")]
        ["query"] }
  | .systemInfo =>
    { name := "system_info"
      description := "Get GeniePod system status: Home Assistant connection state, memory, " ++
        "uptime, governor mode, and load average."
      parameters := noParameters }
  | .calculate =>
    { name := "calculate"
      description := "Evaluate a math expression. Supports +, -, *, /, parentheses, decimals."
      parameters := parameterSchema
        [("expression", property "string" "Math expression (e.g., '(100 - 32) * 5 / 9')")]
        ["expression"] }
  | .playMedia =>
    { name := "play_media"
      description := "Play media on the TV/HDMI output. Triggers media mode (unloads LLM, " ++
        "launches mpv)."
      parameters := parameterSchema
        [("query", property "string" "What to play (movie title, music, etc.)")]
        ["query"] }
  | .memoryRecall =>
    { name := "memory_recall"
      description := "Recall what you know about a topic. Use when the user asks 'what do you " ++
        "know about me', 'do you remember my name', etc."
      parameters := parameterSchema
        [("query", property "string" ("Topic to search memories for (e.g., 'name', 'age', " ++
          "'preferences')"))]
        ["query"] }
  | .memoryStatus =>
    { name := "memory_status"
      description := "Check memory database health, row counts, FTS consistency, and promoted " ++
        "memory count. Use for memory system diagnostics, not for recalling personal facts."
      parameters := noParameters }
  | .memoryForget =>
    { name := "memory_forget"
      description := "Forget a specific piece of information. Use ONLY when the user " ++
        "explicitly asks to forget something, like 'forget my age' or 'delete what you know " ++
        "about X'."
      parameters := parameterSchema
        [("query", property "string" "What to forget (e.g., 'age', 'name', 'favorite color')")]
        ["query"] }
  | .memoryStore =>
    { name := "memory_store"
      description := "Explicitly store a safe household fact or preference. Use when the user " ++
        "says 'remember that...' or asks you to save something. Do not store passwords, " ++
        "one-time codes, payment details, keys, tokens, household access codes, lock " ++
        "combinations, sensitive document/key locations, or private secrets."
      parameters := parameterSchema
        [("category", enumProperty "Category of the memory"
            ["identity", "preference", "relationship", "fact", "context"]),
          ("content", property "string" "The fact to remember")]
        ["content"] }

/-! ## The three tables -/

structure ToolConfig where
  hasHomeAutomation : Bool
  hasWebSearch : Bool

/-- What is behind the name of a tool. -/
inductive Provider where
  | builtIn (tool : BuiltIn)
  | skill (skill : LoadedSkill)
deriving DecidableEq

def runtimeSkillDescription (skill : LoadedSkill) : String :=
  if skill.name = "hello_world" then
    "Demo greeting skill. Only use when the user explicitly asks you to say hello to someone or " ++
      "test the hello_world demo skill."
  else skill.description

def skillToolDef (fromStr : JsonReader) (skill : LoadedSkill) : ToolDef where
  name := skill.name
  description := runtimeSkillDescription skill
  parameters := (fromStr skill.parametersJson).getD noParameters

def Provider.toolDef (fromStr : JsonReader) : Provider → ToolDef
  | .builtIn tool => tool.toolDef
  | .skill loaded => skillToolDef fromStr loaded

def builtIns (config : ToolConfig) : List BuiltIn :=
  (if config.hasHomeAutomation then [.homeControl, .homeStatus, .homeUndo, .actionHistory]
    else []) ++ [.setTimer, .getTime, .getWeather] ++
    (if config.hasWebSearch then [.webSearch] else []) ++
    [.systemInfo, .calculate, .playMedia, .memoryRecall, .memoryStatus, .memoryForget,
      .memoryStore]

/-- Who gives the definitions in the prompt, in their order there. -/
def providers (config : ToolConfig) (loaded : List LoadedSkill) : List Provider :=
  (builtIns config).map .builtIn ++ loaded.map .skill

def toolDefs (fromStr : JsonReader) (config : ToolConfig) (loaded : List LoadedSkill) :
    List ToolDef :=
  (providers config loaded).map (Provider.toolDef fromStr)

def baseTools : List String :=
  ["set_timer", "get_time", "get_weather", "system_info", "calculate", "play_media",
    "memory_recall", "memory_status", "memory_forget", "memory_store"]

def homeTools : List String := ["home_control", "home_status", "home_undo", "action_history"]

def skillToolNameLoaded (loaded : List LoadedSkill) (name : String) : Bool :=
  loaded.any (fun skill => skill.name == name)

def isKnownTool (config : ToolConfig) (loaded : List LoadedSkill) (name : String) : Bool :=
  if name ∈ baseTools then true
  else if config.hasHomeAutomation ∧ name ∈ homeTools then true
  else if config.hasWebSearch ∧ name = "web_search" then true
  else skillToolNameLoaded loaded name

/-- The branch `execute_with_context` takes once the gate let the call pass. -/
def dispatch (loaded : List LoadedSkill) (name : String) : Option Provider :=
  match name with
  | "home_control" => some (.builtIn .homeControl)
  | "home_status" => some (.builtIn .homeStatus)
  | "home_undo" => some (.builtIn .homeUndo)
  | "action_history" => some (.builtIn .actionHistory)
  | "set_timer" => some (.builtIn .setTimer)
  | "get_time" => some (.builtIn .getTime)
  | "get_weather" => some (.builtIn .getWeather)
  | "web_search" => some (.builtIn .webSearch)
  | "system_info" => some (.builtIn .systemInfo)
  | "calculate" => some (.builtIn .calculate)
  | "play_media" => some (.builtIn .playMedia)
  | "memory_recall" => some (.builtIn .memoryRecall)
  | "memory_status" => some (.builtIn .memoryStatus)
  | "memory_forget" => some (.builtIn .memoryForget)
  | "memory_store" => some (.builtIn .memoryStore)
  | other => (loaded.find? (fun skill => skill.name == other)).map .skill

/-! ## Agreement of the tables -/

def builtInNames : List String := baseTools ++ homeTools ++ ["web_search"]

theorem dispatch_builtIn (loaded : List LoadedSkill) (tool : BuiltIn) :
    dispatch loaded tool.toolDef.name = some (.builtIn tool) := by
  cases tool <;> rfl

theorem exists_builtIn {name : String} (h : name ∈ builtInNames) :
    ∃ tool : BuiltIn, tool.toolDef.name = name := by
  revert h name
  show ∀ name ∈ builtInNames, ∃ tool : BuiltIn, tool.toolDef.name = name
  simp only [builtInNames, baseTools, homeTools, cons_append, nil_append,
    forall_mem_cons, not_mem_nil, false_imp_iff, implies_true, and_true]
  exact ⟨⟨.setTimer, rfl⟩, ⟨.getTime, rfl⟩, ⟨.getWeather, rfl⟩, ⟨.systemInfo, rfl⟩,
    ⟨.calculate, rfl⟩, ⟨.playMedia, rfl⟩, ⟨.memoryRecall, rfl⟩, ⟨.memoryStatus, rfl⟩,
    ⟨.memoryForget, rfl⟩, ⟨.memoryStore, rfl⟩, ⟨.homeControl, rfl⟩, ⟨.homeStatus, rfl⟩,
    ⟨.homeUndo, rfl⟩, ⟨.actionHistory, rfl⟩, ⟨.webSearch, rfl⟩⟩

theorem builtIn_name_mem (tool : BuiltIn) : tool.toolDef.name ∈ builtInNames := by
  cases tool <;> decide

theorem dispatch_skill {loaded : List LoadedSkill} {name : String} (h : name ∉ builtInNames) :
    dispatch loaded name = (loaded.find? (fun skill => skill.name == name)).map .skill := by
  unfold dispatch
  split
  all_goals first | rfl | exact absurd (by decide) h

theorem find_name {loaded : List LoadedSkill} (hnames : DistinctNames loaded)
    {skill : LoadedSkill} (hskill : skill ∈ loaded) :
    loaded.find? (fun other => other.name == skill.name) = some skill := by
  induction loaded with
  | nil => cases hskill
  | cons first rest ih =>
    obtain ⟨hfirst, hrest⟩ := List.nodup_cons.mp hnames
    rw [find?_cons]
    rcases List.mem_cons.mp hskill with rfl | hmem
    · rw [beq_self_eq_true]
    · have hne : (first.name == skill.name) = false := by
        rw [beq_eq_false_iff_ne]
        intro hname
        exact hfirst (hname ▸ mem_map_of_mem hmem)
      rw [hne]
      exact ih hrest hmem

variable {fromStr : JsonReader} {config : ToolConfig} {loaded : List LoadedSkill}

theorem map_name_toolDefs :
    (toolDefs fromStr config loaded).map ToolDef.name =
      (builtIns config).map (fun tool => tool.toolDef.name) ++ loaded.map LoadedSkill.name := by
  rw [toolDefs, providers, map_append, map_append, map_map, map_map,
    map_map, map_map]
  rfl

theorem nodup_builtIns (config : ToolConfig) :
    ((builtIns config).map (fun tool => tool.toolDef.name)).Nodup := by
  obtain ⟨home, web⟩ := config
  cases home <;> cases web <;> decide

theorem map_name_builtIns (config : ToolConfig) :
    (builtIns config).map (fun tool => tool.toolDef.name) =
      (if config.hasHomeAutomation then homeTools else []) ++ baseTools.take 3 ++
        (if config.hasWebSearch then ["web_search"] else []) ++ baseTools.drop 3 := by
  obtain ⟨home, web⟩ := config
  cases home <;> cases web <;> rfl

theorem mem_map_name_builtIns (config : ToolConfig) (name : String) :
    name ∈ (builtIns config).map (fun tool => tool.toolDef.name) ↔
      name ∈ baseTools ∨ (config.hasHomeAutomation ∧ name ∈ homeTools) ∨
        (config.hasWebSearch ∧ name = "web_search") := by
  have hbase : name ∈ baseTools ↔ name ∈ baseTools.take 3 ∨ name ∈ baseTools.drop 3 := by
    rw [← mem_append, take_append_drop]
  rw [map_name_builtIns, hbase, mem_append, mem_append, mem_append]
  generalize baseTools.take 3 = first
  generalize baseTools.drop 3 = last
  cases config.hasHomeAutomation <;> cases config.hasWebSearch <;> simp <;> tauto

theorem advertised_iff_known (name : String) :
    name ∈ (toolDefs fromStr config loaded).map ToolDef.name ↔
      isKnownTool config loaded name = true := by
  have hskills : name ∈ loaded.map LoadedSkill.name ↔ skillToolNameLoaded loaded name = true := by
    simp [skillToolNameLoaded]
  rw [map_name_toolDefs, mem_append, mem_map_name_builtIns, hskills, isKnownTool]
  by_cases hbase : name ∈ baseTools
  · simp [hbase]
  · by_cases hhome : config.hasHomeAutomation ∧ name ∈ homeTools
    · simp [hhome]
    · by_cases hweb : config.hasWebSearch ∧ name = "web_search"
      · simp [hweb]
      · rw [if_neg hbase, if_neg hhome, if_neg hweb]
        tauto

/-- Every name in the prompt is there once, is known to the parser and runs whoever gave
the definition. -/
structure Agree (fromStr : JsonReader) (config : ToolConfig) (loaded : List LoadedSkill) :
    Prop where
  distinct : ((toolDefs fromStr config loaded).map ToolDef.name).Nodup
  known : ∀ name, name ∈ (toolDefs fromStr config loaded).map ToolDef.name ↔
    isKnownTool config loaded name = true
  dispatched : ∀ provider ∈ providers config loaded,
    dispatch loaded (provider.toolDef fromStr).name = some provider

theorem agree_iff (hnames : DistinctNames loaded) :
    Agree fromStr config loaded ↔ ∀ skill ∈ loaded, skill.name ∉ builtInNames := by
  constructor
  · rintro ⟨-, -, hdispatched⟩ skill hskill hbuiltIn
    obtain ⟨tool, htool⟩ := exists_builtIn hbuiltIn
    have hrun := hdispatched (.skill skill)
      (mem_append_right _ (mem_map_of_mem hskill))
    have hname : (Provider.toolDef fromStr (.skill skill)).name = skill.name := rfl
    rw [hname, ← htool, dispatch_builtIn] at hrun
    cases hrun
  · intro hfree
    refine ⟨?_, advertised_iff_known, ?_⟩
    · rw [map_name_toolDefs]
      refine List.nodup_append.mpr ⟨nodup_builtIns config, hnames, ?_⟩
      rintro name hname other hother rfl
      obtain ⟨tool, -, rfl⟩ := List.mem_map.mp hname
      obtain ⟨skill, hskill, hskill_name⟩ := List.mem_map.mp hother
      exact hfree skill hskill (hskill_name ▸ builtIn_name_mem tool)
    · intro provider hprovider
      rcases List.mem_append.mp hprovider with hprovider | hprovider
      · obtain ⟨tool, -, rfl⟩ := List.mem_map.mp hprovider
        exact dispatch_builtIn loaded tool
      · obtain ⟨skill, hskill, rfl⟩ := List.mem_map.mp hprovider
        have hname : (Provider.toolDef fromStr (.skill skill)).name = skill.name := rfl
        rw [hname, dispatch_skill (hfree skill hskill), find_name hnames hskill]
        rfl

/-- Whatever was loaded and unloaded, the tables agree exactly when no loaded skill has the
name of a built-in tool. -/
theorem tools_agree_iff (fromStr : JsonReader) (policy : SkillLoadPolicy) (config : ToolConfig)
    (actions : List LoaderAction) :
    let loaded := (loader fromStr policy).run [] actions
    Agree fromStr config loaded ↔ ∀ skill ∈ loaded, skill.name ∉ builtInNames :=
  agree_iff (loaded_names actions)

/-- A skill that calls itself a built-in tool is loaded and advertised, and the built-in tool
runs in its place. -/
theorem skill_shadowed :
    ¬ ∀ (fromStr : JsonReader) (policy : SkillLoadPolicy) (config : ToolConfig)
      (actions : List LoaderAction),
      Agree fromStr config ((loader fromStr policy).run [] actions) := by
  intro h
  have hagree := h (readerOf "\x7b\x7d" (.object [])) {} ⟨false, true⟩
    [.load
      { path := "skills/weather.so"
        opened := .ok
          ⟨1, "get_weather", "Weather from the garden station", "1.0.0", "\x7b\x7d"⟩ }]
  have hshadow := (tools_agree_iff _ _ _ _).mp hagree
  revert hshadow
  decide +kernel

end GenieClaw.Dispatch
