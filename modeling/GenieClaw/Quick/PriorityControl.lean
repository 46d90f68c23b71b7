import GenieClaw.Library.PhraseTests
import GenieClaw.Quick.HomeControl

/-!
# Phrases of the household

`priority_home_control_request` of `tools/quick.rs`: the phrases that stand for one request each.
-/

namespace GenieClaw.Quick

open Library.Text

def priorityRules : List (List (List PhraseTest) × HomeRequest) :=
  [(having ["after dinner cleanup", "after-dinner cleanup"],
      ⟨"after-dinner cleanup", "activate", none⟩),
    (having ["rainy pickup mode"], ⟨"rainy pickup mode", "activate", none⟩),
    ([[.has "living room", .has "board games"]], ⟨"living room board games", "activate", none⟩),
    ([[.has "block notifications", .has "except mom", .has "test practice"]],
      ⟨"mia test-practice notifications", "allow_mom_only", none⟩),
    ([[.has "coffee", .has "when i wake up"]],
      ⟨"coffee maker wake brew", "schedule_on_alarm", none⟩),
    (having ["cold after bath"], ⟨"leo post-bath comfort", "activate", none⟩),
    (having ["basement flood check"], ⟨"basement flood check", "run", none⟩),
    ([[.has "temporary code", .has "grandma"]],
      ⟨"grandma temporary door code", "create_until_21", none⟩),
    (having ["desk feels glarey", "desk feels glary"],
      ⟨"mia desk glare comfort", "activate", none⟩),
    (having ["quiet drawing time"], ⟨"leo quiet drawing time", "activate", none⟩),
    ([[.has "upstairs cooler", .has "leo", .has "alone"]],
      ⟨"upstairs cooling except leo room", "activate", none⟩),
    ([[.has "screens", .has "family dinner"]], ⟨"family dinner screens", "pause", none⟩),
    (having ["stairs bright"], ⟨"stairwell lights", "set_level", (some 90)⟩),
    (having ["workshop dust control"], ⟨"workshop dust control", "activate", none⟩),
    ([[.has "closet light", .has "when i open it"]],
      ⟨"mia closet light automation", "create", none⟩),
    ([[.has "low power mode", .has "until five"]], ⟨"low-power mode", "activate_until_5pm", none⟩),
    ([[.has "animal show", .has "not loud"]], ⟨"leo animal show", "play_low_volume", none⟩),
    ([[.has "front entry lights", .has "until mia gets home"]],
      ⟨"front entry lights until mia home", "hold", none⟩),
    (having ["hear dripping"], ⟨"nearby leak check", "check_and_alert", none⟩),
    (having ["room smells weird"], ⟨"mia room air-quality safety", "check_and_vent", none⟩),
    (having ["school night reset", "school-night reset"], ⟨"school-night reset", "activate", none⟩),
    ([[.has "freezer", .has "above 10"]],
      ⟨"freezer temperature alert", "create_threshold_10", none⟩),
    (having ["only the mirror lights"], ⟨"mia mirror lights only", "activate", none⟩),
    ([[.has "backyard lights", .has "grilling"]], ⟨"backyard grilling lights", "activate", none⟩),
    (having ["too scared to go downstairs"],
      ⟨"downstairs reassurance path lights", "activate", none⟩),
    ([[.has "dinner warm", .has "jared arrives"]],
      ⟨"dinner warm until jared arrives", "activate", none⟩),
    ([[.has "quiet time", .has "after school", .has "wednesday"]],
      ⟨"mia wednesday quiet time", "schedule", none⟩),
    ([[.has "open windows", .has "outside is cleaner"]],
      ⟨"cleaner outside air window mode", "activate", none⟩),
    (having ["holiday lighting schedule"], ⟨"holiday lighting schedule", "create", none⟩),
    (having ["rainy day alarm", "rainy-day alarm"],
      ⟨"mia rainy-day alarm", "set_for_tomorrow", none⟩),
    (having ["guest breakfast mode"], ⟨"guest breakfast mode", "activate", none⟩),
    (having ["laundry room not scary"], ⟨"leo laundry-room reassurance", "activate", none⟩),
    ([[.has "oven", .has "preheats"]], ⟨"oven preheat reminder", "create", none⟩),
    ([[.has "hallway camera", .has "sleepover guests change"]],
      ⟨"hallway camera sleepover privacy", "privacy_20", none⟩),
    (having ["cookies are cool enough"], ⟨"cookie cooling alert", "create", none⟩),
    ([[.has "laundry leaks again", .has "shut off the water"]],
      ⟨"automatic laundry leak shutoff", "enable", none⟩),
    ([[.has "morning checklist", .has "wall"]], ⟨"leo morning checklist display", "show", none⟩),
    ([[.has "upstairs warmer", .has "kids are getting ready"]],
      ⟨"kids morning upstairs warmth", "schedule", none⟩),
    (having ["final safety sweep"], ⟨"final safety sweep", "run", none⟩),
    ([[.has "toaster", .has "smoky"]], ⟨"toaster smoke safety", "cut_power_and_vent", none⟩),
    (having ["house better for pollen", "pollen mode"], ⟨"pollen mode", "activate", none⟩),
    ([[.has "driveway lights", .has "pull in"]],
      ⟨"driveway arrival lights", "schedule_on_arrival", none⟩),
    (having ["room good for a video call"], ⟨"mia video-call room setup", "activate", none⟩),
    ([[.has "dishwasher", .has "after 9"]], ⟨"dishwasher", "schedule_after_21", none⟩),
    (having ["allergy day setup", "allergy-day setup"], ⟨"allergy-day setup", "activate", none⟩),
    ([[.has "wake me with sunlight", .has "not sound"]],
      ⟨"mia sunlight alarm", "schedule_gradual_blinds", none⟩),
    ([[.has "guests only", .has "wi fi", .has "bathroom"]],
      ⟨"limited guest info display", "show_guest_card", none⟩),
    (having ["reading with dad"], ⟨"leo reading-with-dad scene", "activate", none⟩),
    ([[.has "work call", .has "quiet"]], ⟨"work-call quiet mode", "activate", none⟩),
    ([[.has "garage ventilated", .has "paint"]], ⟨"garage paint ventilation", "activate", none⟩),
    (having ["sleepover lights"], ⟨"mia sleepover lights", "apply_scene", none⟩),
    ([[.has "lights flash", .has "cookies are done"]],
      ⟨"leo cookie timer light alert", "schedule_pulse", none⟩),
    (having ["calm morning for leo"], ⟨"leo calm morning", "activate", none⟩),
    ([[.has "homework mode", .has "both kids"]], ⟨"kids homework mode", "activate", none⟩),
    ([[.has "put my schedule", .has "bathroom mirror"]],
      ⟨"mia bathroom mirror agenda", "show_agenda", none⟩),
    (having ["too hot in bed"], ⟨"leo bed cooling comfort", "cool_down", (some 2)⟩),
    (having ["water under the sink"], ⟨"kitchen sink leak safety", "shut_water_zone", none⟩),
    ([[.has "standby power", .has "office"]], ⟨"office standby power", "turn_off", none⟩),
    ([[.has "block youtube", .has "finish math"]],
      ⟨"mia youtube access", "block_until_math_done", none⟩),
    ([[.has "contractor", .has "garage", .has " at 10"]],
      ⟨"contractor garage access", "allow_10_to_10_20", none⟩),
    (having ["sleepover guest mode"], ⟨"sleepover guest mode", "activate", none⟩),
    ([[.has "turn on stars", .has "closet dark"]], ⟨"leo stars except closet", "activate", none⟩),
    ([[.has "open my blinds slowly", .has "school morning"]],
      ⟨"mia school-morning gradual blinds", "schedule", none⟩),
    ([[.has "shower warm", .has "not steamy"]], ⟨"mia warm-not-steamy shower", "activate", none⟩),
    ([[.has "security on", .has "don t wake the kids"]],
      ⟨"quiet armed security", "activate", none⟩),
    (having ["heard glass break"], ⟨"downstairs glass-break safety", "verify_and_alert", none⟩),
    ([[.has "call mom", .has "kitchen screen"]],
      ⟨"kitchen screen call mom", "start_video_call", none⟩),
    ([[.has "babysitter", .has "prep the house"]], ⟨"babysitter mode", "activate", none⟩),
    ([[.has "warm up", .has "sarah", .has "bathroom"]],
      ⟨"sarah bathroom comfort", "warm_for_minutes", (some 25)⟩),
    ([[.has "focus mode", .has "until five"]], ⟨"personal focus mode", "activate_until_5pm", none⟩),
    ([[.has "porch", .has "waking the kids"]], ⟨"quiet porch alerts tonight", "activate", none⟩),
    (having ["start storm prep", "run storm prep"], ⟨"storm prep", "activate", none⟩),
    (having ["scared of the dark"], ⟨"night reassurance scene", "activate", none⟩),
    ([[.has "open blinds", .has "morning sun", .has "mia"]],
      ⟨"morning sun blinds except mia room", "open", none⟩),
    (having ["piano practice quiet", "quiet for the rest of the house"],
      ⟨"piano practice quiet mode", "activate", none⟩),
    (having ["smell gas"], ⟨"gas safety emergency", "activate", none⟩),
    ([[.has "start bedtime", .has "mia", .has "20 minutes"]],
      ⟨"bedtime with mia reading override", "activate", none⟩),
    ([[.has "vacation mode", .has "next week"]],
      ⟨"scheduled vacation mode next week", "schedule", none⟩),
    ([[.has "robot vacuum", .has "under my bed"]], ⟨"leo under-bed vacuum zone", "clean", none⟩),
    ([[.has "turn off notifications", .has "practicing violin"]],
      ⟨"mia violin practice notifications", "mute_for_practice", none⟩),
    ([[.has "kitchen", .has "toddler safe"], [.has "kitchen", .has "toddler-safe"]],
      ⟨"toddler-safe kitchen", "activate", none⟩),
    ([[.has "lock everything", .has "except", .has "back gate"]],
      ⟨"all locks except back gate", "lock_except", none⟩),
    ([[.has "spaceship", .has "hallway"]], ⟨"spaceship hallway", "activate", none⟩),
    ([[.has "everything downstairs", .has "except", .has "kitchen lights"]],
      ⟨"downstairs except kitchen lights", "turn_off_except", none⟩),
    (exactly ["run movie night", "start movie night"], ⟨"movie night", "activate", none⟩),
    ([[.has "too bright", .has "reading"]], ⟨"reading light comfort", "activate", none⟩),
    (having ["make my room cozy", "make the room cozy"],
      ⟨"personal cozy room scene", "activate", none⟩),
    (having ["smoke alarm real", "smoke alert"], ⟨"smoke emergency protocol", "activate", none⟩),
    ([[.has "away mode", .has "house"]], ⟨"away mode", "activate", none⟩),
    ([[.has "study playlist", .has "desk lamp"]], ⟨"personal study scene", "activate", none⟩),
    (having ["too loud"], ⟨"nearby media volume", "set_volume", (some 25)⟩),
    ([[.has "night light", .has "blue"]], ⟨"personal night-light", "set_color_blue", none⟩),
    ([[.has "pause internet", .has "kids", .has "until dinner"]],
      ⟨"kids internet", "pause_until_dinner", none⟩),
    ([[.has "safe at night", .has "hallway"]], ⟨"night hallway safety", "activate", none⟩),
    (having ["dinner prep mode"], ⟨"dinner prep mode", "activate", none⟩),
    ([[.has "spilled water", .has "outlet"]], ⟨"outlet spill safety protocol", "activate", none⟩),
    (exactly ["warm up the car", "warm up car"],
      ⟨"connected car climate", "remote_start", (some 72)⟩),
    (exactly ["send this address to my car", "send address to my car"],
      ⟨"car navigation", "send_destination", none⟩),
    ([[.has "fallen", .has "can t get up"]], ⟨"fall emergency alert", "activate", none⟩),
    (having ["prep the house for vacation", "prepare the house for vacation"],
      ⟨"vacation mode", "activate", none⟩),
    (having ["smoky in here", "smoke in here"], ⟨"smoke ventilation protocol", "activate", none⟩),
    (having ["working late"], ⟨"working late family update", "activate", none⟩),
    (having ["take a nap", "going to nap"], ⟨"nap mode", "activate", none⟩),
    (having ["dark parking lot"], ⟨"parking lot safety protocol", "activate", none⟩),
    ([[.has "driving home", .has "rain"]], ⟨"arrival rain protocol", "activate", none⟩),
    (having ["stuffy"], ⟨"ventilation comfort scene", "activate", none⟩),
    (having ["working from home", "work from home"], ⟨"work from home scene", "activate", none⟩),
    (having ["locked out"], ⟨"front door", "unlock", none⟩)]

def priorityHomeControlRequest (text : String) : Option HomeRequest :=
  firstAnswer priorityRules text

end GenieClaw.Quick
