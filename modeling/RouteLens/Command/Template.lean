import RouteLens.Text.Search

/-!
# The starter settings

A settings document with the most useful sections, for a start.
-/

namespace RouteLens.Command

/-- The lines of the starter settings. -/
def templateLines : List String :=
  ["# =============================================================================",
   "# specpilot configuration",
   "# =============================================================================",
   "# Every section is optional. Values given here replace the defaults key by key",
   "# inside each section; lists are replaced, not extended.",
   "#",
   "# DISCLAIMER: specpilot reads source code, it never runs it. Findings are",
   "# heuristics over static structure and can be wrong in both directions.",
   "# =============================================================================",
   "",
   "project:",
   "  # First existing file wins; without one, every .py file under source_dir",
   "  # is loaded eagerly.",
   "  build_config_files: [\"pyproject.toml\", \"setup.cfg\", \"setup.py\"]",
   "  source_dir: src",
   "",
   "complexity:",
   "  info_threshold: 7",
   "  warn_threshold: 10",
   "",
   "remote_calls:",
   "  # Names are lower-cased and stripped of underscores before matching.",
   "  prefixes: [\"find\", \"get\", \"fetch\", \"load\"]",
   "  contains: [\"query\", \"count\", \"findmany\"]",
   "  exact: [\"all\", \"first\", \"one\"]",
   "",
   "exceptions:",
   "  modules: [\"fastapi\", \"fastapi.exceptions\", \"exceptions\"]",
   "  suffixes: [\"Exception\", \"Error\"]",
   "  priority:",
   "    - NotFoundException",
   "    - ConflictException",
   "    - BadRequestException",
   "",
   "transactions:",
   "  patterns:",
   "    - \"\\\\.transaction$\"",
   "    - \"(^|\\\\.)atomic$\"",
   "",
   "payload:",
   "  max_depth: 3",
   "",
   "auth:",
   "  parameters:",
   "    - \"Depends\\\\s*\\\\(\\\\s*get_current_user\"",
   "  decorators:",
   "    - \"login_required\"",
   "",
   "feedback:",
   "  sensitive_paths: [\"/me\", \"/admin\", \"/billing\"]",
   "",
   "cache:",
   "  result_ttl: 15",
   ""]

/-- The starter settings. -/
def template : String :=
  Text.joinWith "\n" templateLines

end RouteLens.Command
