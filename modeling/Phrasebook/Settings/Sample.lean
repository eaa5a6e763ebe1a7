import Phrasebook.Text.Lines

/-!
# The sample of a settings file

A settings file with all settings at their defaults and a comment on each of them.
-/

namespace Phrasebook.Settings

/-- The lines of the sample. -/
def sampleLines : List String :=
  ["# Addon Localizer Configuration File",
  "# Every option has a default; remove anything you do not need to change.",
  "",
  "# ============================================================================",
  "# Source Scanning",
  "# ============================================================================",
  "",
  "scan:",
  "  # Name of the localization table referenced as L[\"key\"]",
  "  lookup_identifier: L",
  "  # Glob pattern for source files",
  "  source_pattern: \"*.lua\"",
  "  # Subdirectories (relative to the addon root) that are not scanned",
  "  exclude_subdirectories:",
  "    - Libs",
  "    - Localization",
  "  # Formatting calls whose first argument is a template string",
  "  template_functions:",
  "    - string.format",
  "  # Maximum number of locations stored per glue string (1-10000)",
  "  location_cap: 100",
  "",
  "# ============================================================================",
  "# Locale Files",
  "# ============================================================================",
  "",
  "locale_files:",
  "  # Localization directory, relative to the addon root",
  "  directory: Localization",
  "  # Whether to back up a locale file before overwriting it",
  "  create_backups: true",
  "  # Addon table name bound in new locale files (local _, TRB = ...)",
  "  addon_namespace: TRB",
  "  # Expression the lookup identifier is bound to in new locale files",
  "  table_expression: TRB.Localization",
  "  # File name suffixes skipped when loading primary locale files",
  "  gt_exclude_patterns:",
  "    - GT.lua",
  "  # Maximum number of locale files saved at the same time (1-32)",
  "  max_concurrent_saves: 4",
  "",
  "# ============================================================================",
  "# Machine Translation",
  "# ============================================================================",
  "",
  "translation:",
  "  # Google Cloud Translation API key (falls back to GOOGLE_TRANSLATE_API_KEY)",
  "  api_key: null",
  "  # Translation v2 REST endpoint",
  "  endpoint: https://translation.googleapis.com/language/translate/v2",
  "  # Texts per translation request (1-128)",
  "  batch_size: 100",
  "  # Pause between translation requests in seconds",
  "  batch_delay_seconds: 0.1",
  "  # HTTP timeout for translation requests in seconds",
  "  timeout_seconds: 30.0",
  "",
  "# ============================================================================",
  "# Logging",
  "# ============================================================================",
  "",
  "logging:",
  "  # DEBUG, INFO, WARNING, ERROR or CRITICAL",
  "  level: INFO",
  "  # Optional log file path (rotated at 5 MB)",
  "  file: null"]

/-- The sample. -/
def sample : Text :=
  Text.joinLines (sampleLines.map String.toList) ['\n']

end Phrasebook.Settings
