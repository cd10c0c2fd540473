/-!
# The program inside the linter's process

The process runs this program, which loads the linter's package from the directory that the
environment names, reads requests and writes replies.
-/

namespace LintSetup.Bridge

/-- The variable of the environment that names the directory of the linter's package. -/
def packageVariable : String := "ESLINT_CLI_ESLINT_PATH"

/-- The program. -/
def script : String :=
  "'use strict';
const directory = process.env.ESLINT_CLI_ESLINT_PATH;
const eslint = require(directory);
const linter = new eslint.Linter();
const kept = new Map();
let last = 0;
const definitions = () => typeof linter.getRules === 'function'
  ? linter.getRules()
  : require(directory + '/use-at-your-own-risk').builtinRules;
const engine = (config, fix) => \x7b
  const options = \x7b baseConfig: config, fix: fix, useEslintrc: false \x7d;
  return eslint.CLIEngine ? new eslint.CLIEngine(options) : new eslint.ESLint(options);
\x7d;
const operations = \x7b
  rules: () => Array.from(definitions()).map(([id, rule]) => \x7b
    const meta = (rule && rule.meta) || \x7b\x7d;
    return \x7b
      id: id,
      schema: meta.schema == null ? null : meta.schema,
      deprecated: Boolean(meta.deprecated),
      recommended: Boolean(meta.docs && meta.docs.recommended)
    \x7d;
  \x7d),
  config: request => eslint.CLIEngine
    ? engine(request.config, false).getConfigForFile('a.js')
    : engine(request.config, false).calculateConfigForFile('a.js'),
  verify: request => \x7b
    const source = request.handle == null ? request.text : kept.get(request.handle);
    if (source == null) throw new Error('unknown source handle: ' + request.handle);
    const messages = linter.verify(source, request.config, request.filename);
    let handle = null;
    if (request.handle == null && !(messages.length > 0 && messages[0].fatal)) \x7b
      const parsed = linter.getSourceCode();
      if (parsed) \x7b
        last += 1;
        handle = last;
        kept.set(handle, parsed);
      \x7d
    \x7d
    return \x7b
      messages: messages.map(m => (\x7b
        ruleId: m.ruleId || null,
        fatal: Boolean(m.fatal),
        message: String(m.message || ''),
        line: m.line || 0,
        column: m.column || 0
      \x7d)),
      handle: handle
    \x7d;
  \x7d,
  release: request => kept.delete(request.handle),
  fix: async request => \x7b
    const results = eslint.CLIEngine
      ? engine(request.config, true).executeOnText(request.text).results
      : await engine(request.config, true).lintText(request.text);
    return (results[0] && results[0].output) || null;
  \x7d
\x7d;
const reply = r => process.stdout.write(JSON.stringify(r) + '\\n');
require('readline').createInterface(\x7b input: process.stdin \x7d)
  .on('line', async line => \x7b
    let id = null;
    try \x7b
      const request = JSON.parse(line);
      id = request.id;
      const operation = operations[request.op];
      if (typeof operation !== 'function') throw new Error('unknown op: ' + request.op);
      const result = await operation(request);
      reply(\x7b id: id, ok: true, result: result === undefined ? null : result \x7d);
    \x7d catch (error) \x7b
      reply(\x7b id: id, ok: false, error: String((error && error.stack) || error) \x7d);
    \x7d
  \x7d)
  .on('close', () => process.exit(0));
"

end LintSetup.Bridge
