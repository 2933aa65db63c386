/-!
# Helper functions

The functions that generated programs may need besides the standard modules. Each brings the import
statements it depends on, and those that are needed are written in one fixed order.
-/
namespace FlowScript.Program

inductive Helper where
  | logger
  | gatherAll
  | httpRequest
  | sortKey
  | unique
  | flatten
  | groupBy
  | loadModule
  | writeOutput
deriving Repr, DecidableEq

namespace Helper

/-- The helpers in the order in which they are written. -/
def all : List Helper :=
  [.logger, .gatherAll, .httpRequest, .sortKey, .unique, .flatten, .groupBy, .loadModule, .writeOutput]

/-- The name under which a program calls the helper. -/
def name : Helper → String
  | .logger => "logger"
  | .gatherAll => "_gather_all"
  | .httpRequest => "_http_request"
  | .sortKey => "_sort_key"
  | .unique => "_unique"
  | .flatten => "_flatten"
  | .groupBy => "_group_by"
  | .loadModule => "_load_module"
  | .writeOutput => "_write_output"

def named? (s : String) : Option Helper := all.find? (·.name == s)

def imports : Helper → List String
  | .logger => ["import logging"]
  | .gatherAll => ["import asyncio"]
  | .httpRequest => ["import asyncio", "import json", "import urllib.request"]
  | .sortKey => []
  | .unique => []
  | .flatten => []
  | .groupBy => []
  | .loadModule => ["import importlib.util", "from pathlib import Path"]
  | .writeOutput => ["import json", "from pathlib import Path"]

def lines : Helper → List String
  | .logger => [
      "logger = logging.getLogger(__name__)"]
  | .gatherAll => [
      "async def _gather_all(*branches):",
      "    \"\"\"Run branches concurrently, wait for all, then re-raise the first failure.\"\"\"",
      "    results = await asyncio.gather(*branches, return_exceptions=True)",
      "    for result in results:",
      "        if isinstance(result, BaseException):",
      "            raise result",
      "    return results"]
  | .httpRequest => [
      "async def _http_request(method, url, headers=None, body=None):",
      "    \"\"\"Send an HTTP request in a worker thread; JSON responses are decoded.\"\"\"",
      "",
      "    def send():",
      "        request_headers = dict(headers or \x7b\x7d)",
      "        data = None",
      "        if isinstance(body, (dict, list)):",
      "            data = json.dumps(body).encode(\"utf-8\")",
      "            request_headers.setdefault(\"Content-Type\", \"application/json\")",
      "        elif body is not None:",
      "            data = str(body).encode(\"utf-8\")",
      "        request = urllib.request.Request(url, data=data, headers=request_headers, method=method)",
      "        with urllib.request.urlopen(request) as response:",
      "            text = response.read().decode(\"utf-8\")",
      "            if \"json\" in response.headers.get(\"Content-Type\", \"\"):",
      "                return json.loads(text)",
      "            return text",
      "",
      "    return await asyncio.to_thread(send)"]
  | .sortKey => [
      "def _sort_key(item, field):",
      "    \"\"\"Numbers sort numerically, then strings lexicographically, then missing values.\"\"\"",
      "    value = item.get(field) if isinstance(item, dict) and field is not None else item",
      "    if isinstance(value, (int, float)) and not isinstance(value, bool):",
      "        return (0, value, \"\")",
      "    if value is None:",
      "        return (2, 0, \"\")",
      "    return (1, 0, str(value))"]
  | .unique => [
      "def _unique(data, key=None):",
      "    \"\"\"Drop duplicates, keeping the first occurrence.\"\"\"",
      "    if key is None:",
      "        kept = []",
      "        for value in data:",
      "            if value not in kept:",
      "                kept.append(value)",
      "        return kept",
      "    by_key = \x7b\x7d",
      "    for item in data:",
      "        by_key.setdefault(item.get(key) if isinstance(item, dict) else item, item)",
      "    return list(by_key.values())"]
  | .flatten => [
      "def _flatten(data, depth=1):",
      "    flat = []",
      "    for value in data:",
      "        if isinstance(value, list) and depth > 0:",
      "            flat.extend(_flatten(value, depth - 1))",
      "        else:",
      "            flat.append(value)",
      "    return flat"]
  | .groupBy => [
      "def _group_by(data, field):",
      "    groups = \x7b\x7d",
      "    for item in data:",
      "        groups.setdefault(item.get(field) if isinstance(item, dict) else None, []).append(item)",
      "    return groups"]
  | .loadModule => [
      "def _load_module(path):",
      "    spec = importlib.util.spec_from_file_location(Path(path).stem, path)",
      "    module = importlib.util.module_from_spec(spec)",
      "    spec.loader.exec_module(module)",
      "    return module"]
  | .writeOutput => [
      "def _write_output(path, data):",
      "    target = Path(path)",
      "    target.parent.mkdir(parents=True, exist_ok=True)",
      "    target.write_text(json.dumps(data, indent=2, ensure_ascii=False, default=str), encoding=\"utf-8\")"]

def source (helper : Helper) : String := String.intercalate "\n" helper.lines

end Helper

end FlowScript.Program
